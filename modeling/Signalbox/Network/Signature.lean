import Signalbox.Digest.XXH64
import Signalbox.Network.Basic

/-!
# Signatures

The signature of a set of nodes is a hash of their names, kinds, positions and destinations, in the
order of the names.  It tells whether two builds found the same places, in whatever order they were
found and whatever connects them.

* `Network.signature` : the signature of the nodes of a network.
-/

set_option autoImplicit false

namespace Signalbox

/-- The hash that stands for a set of nodes. -/
structure Signature where
  word : UInt64
deriving DecidableEq, Inhabited

/-- Nodes by name; of several with one name the first counts. -/
def nodesByName (ns : List Node) : Std.ExtTreeMap NodeId Node :=
  ns.foldl (fun m n => m.insertIfNew n.id n) ∅

/-- What a node contributes to the hash: its name, a separator, its kind, its position, its
destination if it has one, and an end mark. -/
def Node.signatureBytes (n : Node) : List UInt8 :=
  Digest.textBytes n.id.text ++ [0x1f] ++ Digest.textBytes n.kind.text ++ Digest.cellBytes n.pos
    ++ (n.destination.map Digest.textBytes).getD [] ++ [0x1e]

namespace Signature

/-- The bytes that are hashed for the nodes of a map. -/
def encode (m : Std.ExtTreeMap NodeId Node) : List UInt8 :=
  m.toList.flatMap fun (_, n) => n.signatureBytes

/-- The signature of nodes listed in any order. -/
def ofNodes (ns : List Node) : Signature := ⟨Digest.XXH64.hash (encode (nodesByName ns))⟩

/-- Sixteen hexadecimal digits in lower case. -/
def text (s : Signature) : String :=
  let ds := Nat.toDigits 16 s.word.toNat
  String.ofList (List.replicate (16 - ds.length) '0' ++ ds)

end Signature

/-- The signature of the nodes of a network. -/
def Network.signature (g : Network) : Signature := ⟨Digest.XXH64.hash (Signature.encode g.nodeMap)⟩

end Signalbox
