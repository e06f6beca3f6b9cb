import AuthDict.CommandLine.Directory
import AuthDict.Main
import AuthDict.Proofs.Dictionary.Answers
import AuthDict.Proofs.Dictionary.AppendOnly
import AuthDict.Proofs.Dictionary.BatchSafety
import AuthDict.Proofs.Dictionary.Conservation
import AuthDict.Proofs.Dictionary.Isolation
import AuthDict.Proofs.Dictionary.Losses
import AuthDict.Proofs.Dictionary.ShutDown
import AuthDict.Proofs.Dictionary.WrittenOnce
import AuthDict.Proofs.Query.Pooling
import AuthDict.Proofs.Query.Sharing
import AuthDict.Proofs.Snapshot.Acceptance
import AuthDict.Proofs.Trie.Acceptance
import AuthDict.Proofs.Trie.Contents
import AuthDict.Proofs.Updater.Order
import AuthDict.Proofs.Updater.Publication
import AuthDict.Proofs.Updater.Undisturbed
import AuthDict.Proofs.Trie.Evidence
import AuthDict.Proofs.Trie.Reloading
import AuthDict.Proofs.Updater.Outcomes
import AuthDict.Proofs.Label.Uniqueness
import AuthDict.Proofs.Preimage.Roles
import AuthDict.Proofs.Query.Staleness
import AuthDict.Proofs.Dictionary.Sequence
import AuthDict.Proofs.Dictionary.Enquiry
import AuthDict.Proofs.Config.RoundTrip
import AuthDict.Proofs.Label.Recency
import AuthDict.Proofs.Binary.Canonical
import AuthDict.Proofs.Dictionary.Sharding
import AuthDict.Proofs.Trie.Ranges
import AuthDict.Proofs.Trie.Traversal
