import Recompile.Disk.Tree
import Recompile.Main
import Recompile.Path.Bytes
import Recompile.Proofs.Build.Agreement
import Recompile.Proofs.Build.Contained
import Recompile.Proofs.Build.InStep
import Recompile.Proofs.Build.Full
import Recompile.Proofs.Build.Kept
import Recompile.Proofs.Build.Naming
import Recompile.Proofs.Build.Prepare
import Recompile.Proofs.Build.Pruned
import Recompile.Proofs.Build.Update
import Recompile.Proofs.ClassName.Artifact
import Recompile.Proofs.Directory.Exact
import Recompile.Proofs.Directory.Search
import Recompile.Proofs.Graph.Distance
import Recompile.Proofs.Graph.Numbering
import Recompile.Proofs.Graph.Purged
import Recompile.Proofs.Path.Spelling
import Recompile.Proofs.Process.Relay
import Recompile.Proofs.Store.Canonical
import Recompile.Proofs.Store.Grammar
import Recompile.Proofs.Store.Interrupted
import Recompile.Proofs.Store.Operations
import Recompile.Proofs.Store.Patch
import Recompile.Proofs.Store.Recorded
import Recompile.Proofs.Toolchain.Javap
import Recompile.Proofs.Toolchain.Jdeps
import Recompile.Toolchain.Outline
