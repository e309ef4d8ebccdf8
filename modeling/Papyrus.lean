import Papyrus.Disk.Edit
import Papyrus.Disk.Walk
import Papyrus.Main
import Papyrus.Proofs.Completion.Agreement
import Papyrus.Proofs.Completion.General
import Papyrus.Proofs.Completion.LetterCase
import Papyrus.Proofs.Completion.Stable
import Papyrus.Proofs.Completion.Target
import Papyrus.Proofs.Declaration.Exclusion
import Papyrus.Proofs.Declaration.Spacing
import Papyrus.Proofs.Documentation.Sources
import Papyrus.Proofs.Extraction.Composition
import Papyrus.Proofs.Extraction.Spacing
import Papyrus.Proofs.Index.History
import Papyrus.Proofs.Index.Independence
import Papyrus.Proofs.Index.Removal
import Papyrus.Proofs.Indexer.FullScan
import Papyrus.Proofs.Indexer.Incremental
import Papyrus.Proofs.Indexer.Interference
import Papyrus.Proofs.Indexer.Interleaving
import Papyrus.Proofs.Indexer.Isolation
import Papyrus.Proofs.Indexer.Rescan
import Papyrus.Proofs.Indexer.Transparency
import Papyrus.Proofs.Inheritance.Chain
import Papyrus.Proofs.Inheritance.Locality
import Papyrus.Proofs.Inheritance.Unfolding
import Papyrus.Proofs.Project.Nesting
import Papyrus.Proofs.Session.Documents
import Papyrus.Proofs.Session.Extension
