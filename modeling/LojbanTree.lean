import LojbanTree.Main
import LojbanTree.Proofs.Bracketed.Depth
import LojbanTree.Proofs.Bracketed.Display
import LojbanTree.Proofs.Bracketed.Runs
import LojbanTree.Proofs.Bracketed.Unambiguous
import LojbanTree.Proofs.CommandLine.OutputFile
import LojbanTree.Proofs.Json.CodeUnits
import LojbanTree.Proofs.Json.TreeValues
import LojbanTree.Proofs.Modes
import LojbanTree.Proofs.Relayout
import LojbanTree.Proofs.Selmaho
import LojbanTree.Proofs.Transparency
import LojbanTree.Proofs.Tree.Blanks
import LojbanTree.Proofs.Tree.BridiBranches
import LojbanTree.Proofs.Tree.KeptBranches
import LojbanTree.Proofs.Tree.NormalForm
import LojbanTree.Proofs.Tree.Outline
import LojbanTree.Proofs.Tree.ProcessedShape
import LojbanTree.Proofs.Tree.ProcessedWords
import LojbanTree.Proofs.Tree.Queries
import LojbanTree.Proofs.Tree.Reprocessing
import LojbanTree.Proofs.Tree.SpokenText
import LojbanTree.Proofs.Tree.Stages
import LojbanTree.Proofs.Tree.TaggedLeaves
import LojbanTree.Proofs.Tree.Terminators
import LojbanTree.Proofs.Tree.Wrappers
import LojbanTree.Proofs.Utf8
