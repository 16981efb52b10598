import CompositeSorts.Hash.Framing
import CompositeSorts.Proofs.Arena
import CompositeSorts.Proofs.Catalog.Reckoning
import CompositeSorts.Proofs.Cbor.Survival
import CompositeSorts.Proofs.Framing
import CompositeSorts.Proofs.Matching.FirstBest
import CompositeSorts.Proofs.Registry.Accounts
import CompositeSorts.Proofs.Registry.Alternatives
import CompositeSorts.Proofs.Registry.Answers
import CompositeSorts.Proofs.Registry.Arrangements
import CompositeSorts.Proofs.Registry.Aspects
import CompositeSorts.Proofs.Registry.Associativity
import CompositeSorts.Proofs.Registry.Canonical
import CompositeSorts.Proofs.Registry.Carets
import CompositeSorts.Proofs.Registry.Comparing
import CompositeSorts.Proofs.Registry.Compiling
import CompositeSorts.Proofs.Registry.Composites
import CompositeSorts.Proofs.Registry.Containment
import CompositeSorts.Proofs.Registry.Ending
import CompositeSorts.Proofs.Registry.Failing
import CompositeSorts.Proofs.Registry.Grounds
import CompositeSorts.Proofs.Registry.Identicals
import CompositeSorts.Proofs.Registry.Interning
import CompositeSorts.Proofs.Registry.Order
import CompositeSorts.Proofs.Registry.Reckoning
import CompositeSorts.Proofs.Registry.Recognising
import CompositeSorts.Proofs.Registry.Reflections
import CompositeSorts.Proofs.Registry.Removed
import CompositeSorts.Proofs.Registry.Resolving
import CompositeSorts.Proofs.Registry.Sealing
import CompositeSorts.Proofs.Registry.Searching
import CompositeSorts.Proofs.Registry.Stale
import CompositeSorts.Proofs.Registry.Symmetry
import CompositeSorts.Proofs.Registry.Unbroken
import CompositeSorts.Proofs.Registry.Undoing
import CompositeSorts.Proofs.Registry.Unions
import CompositeSorts.Proofs.Registry.WellFormed
import CompositeSorts.Proofs.Source.Rows
import CompositeSorts.Proofs.Source.Scanning
import CompositeSorts.Registry
import CompositeSorts.Source.Cursor
