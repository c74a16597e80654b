import ObjectWorld.Machine
import ObjectWorld.Proofs.Ancestry
import ObjectWorld.Proofs.Answers
import ObjectWorld.Proofs.Appearance
import ObjectWorld.Proofs.Arithmetic
import ObjectWorld.Proofs.BareCalls
import ObjectWorld.Proofs.Builtins
import ObjectWorld.Proofs.CallScopes
import ObjectWorld.Proofs.Depth
import ObjectWorld.Proofs.Dispatch
import ObjectWorld.Proofs.Effects
import ObjectWorld.Proofs.Ending
import ObjectWorld.Proofs.Equality
import ObjectWorld.Proofs.Exceptions
import ObjectWorld.Proofs.Extensions
import ObjectWorld.Proofs.Growth
import ObjectWorld.Proofs.Honest
import ObjectWorld.Proofs.Hosting
import ObjectWorld.Proofs.Identity
import ObjectWorld.Proofs.Instantiating
import ObjectWorld.Proofs.Isolation
import ObjectWorld.Proofs.Lasting
import ObjectWorld.Proofs.Limits
import ObjectWorld.Proofs.Listing
import ObjectWorld.Proofs.Moves
import ObjectWorld.Proofs.Printing
import ObjectWorld.Proofs.Realm
import ObjectWorld.Proofs.Registry
import ObjectWorld.Proofs.Resolution
import ObjectWorld.Proofs.Responding
import ObjectWorld.Proofs.Returns
import ObjectWorld.Proofs.Roots
import ObjectWorld.Proofs.Sameness
import ObjectWorld.Proofs.ScopeChanges
import ObjectWorld.Proofs.Scoping
import ObjectWorld.Proofs.Script.Ending
import ObjectWorld.Proofs.Script.Evaluations
import ObjectWorld.Proofs.Script.Session
import ObjectWorld.Proofs.SelfReferences
import ObjectWorld.Proofs.Sequence
import ObjectWorld.Proofs.Sharing
import ObjectWorld.Proofs.Sound
import ObjectWorld.Proofs.Superclasses
import ObjectWorld.Proofs.Unobserved
import ObjectWorld.Proofs.VisibleClass
import ObjectWorld.Proofs.Writes
import ObjectWorld.Script.Session
