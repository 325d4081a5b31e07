import Rudis.Lib.Words
import Rudis.Spec.Primitives

/-!
# `Rudis.Spec.BinTree`: the three-level bitmap trie of bins

`blockchain/primitives/src/math/tree_math.rs` and `bit_math.rs`: a bin id has 24 bits, one byte for
each level. A leaf word has a bit for each bin, a mid word a bit for each non-empty leaf word below
it, and the root word a bit for each non-empty mid word.
-/

namespace Rudis.BinTree

/-! ### Words -/

/-- `u64::trailing_zeros`: 64 for a zero limb. -/
def trailingZeros (limb : BitVec 64) : Nat := Words.firstSet 64 limb.getLsbD

/-- The `i`-th 64-bit limb of a word, little-endian. -/
def limb (word : BitVec 256) (i : Nat) : BitVec 64 := word.extractLsb' (64 * i) 64

/-- Index of the lowest set bit; 255 for zero. -/
def leastSignificantBit (word : BitVec 256) : Nat :=
  match (List.range 4).find? fun i => limb word i ≠ 0#64 with
  | some i => trailingZeros (limb word i) + i * 64
  | none => 255

/-- The word with all bits below `fromBit` cleared. -/
def maskFrom (word : BitVec 256) (fromBit : Nat) : BitVec 256 :=
  if fromBit = 0 then word else word &&& BitVec.allOnes 256 <<< fromBit

/-! ### Addresses -/

def maxBinId : Nat := 0xFFFFFF

def top (id : Nat) : Nat := (id >>> 16) &&& 0xFF

def mid (id : Nat) : Nat := (id >>> 8) &&& 0xFF

def lo (id : Nat) : Nat := id &&& 0xFF

def leafKey (top mid : Nat) : Nat := (top <<< 8) ||| mid

/-- Packs the three bytes of an id. -/
def assemble (top mid lo : Nat) : Nat := (top <<< 16) ||| (mid <<< 8) ||| lo

/-! ### The trie -/

structure Tree where
  root : BitVec 256
  /-- One word per top byte. -/
  midAt : Nat → BitVec 256
  /-- One word per pair of the two upper bytes. -/
  leafAt : Nat → BitVec 256

def Tree.empty : Tree := ⟨0, fun _ => 0, fun _ => 0⟩

def contains (t : Tree) (id : Nat) : Bool :=
  t.leafAt (leafKey (top id) (mid id)) &&& Words.bit 256 (lo id) ≠ 0#256

/-- Sets a bit, upwards as far as a word was zero; returns whether the bit was clear. -/
def add (t : Tree) (id : Nat) : Tree × Bool :=
  let leafK := leafKey (top id) (mid id)
  let leaves := t.leafAt leafK
  let newLeaves := leaves ||| Words.bit 256 (lo id)
  if leaves = newLeaves then (t, false)
  else
    let t := { t with leafAt := update t.leafAt leafK newLeaves }
    if leaves = 0#256 then
      let midWord := t.midAt (top id)
      let newMid := midWord ||| Words.bit 256 (mid id)
      let t := { t with midAt := update t.midAt (top id) newMid }
      if midWord = 0#256 then ({ t with root := t.root ||| Words.bit 256 (top id) }, true)
      else (t, true)
    else (t, true)

/-- Clears a bit, upwards as far as a word becomes zero; returns whether the bit was set. -/
def remove (t : Tree) (id : Nat) : Tree × Bool :=
  let leafK := leafKey (top id) (mid id)
  let leaves := t.leafAt leafK
  let newLeaves := leaves &&& ~~~(Words.bit 256 (lo id))
  if leaves = newLeaves then (t, false)
  else
    let t := { t with leafAt := update t.leafAt leafK newLeaves }
    if newLeaves ≠ 0#256 then (t, true)
    else
      let newMid := t.midAt (top id) &&& ~~~(Words.bit 256 (mid id))
      let t := { t with midAt := update t.midAt (top id) newMid }
      if newMid ≠ 0#256 then (t, true)
      else ({ t with root := t.root &&& ~~~(Words.bit 256 (top id)) }, true)

/-- The least bin below a root bit: its first mid bit, then its first leaf bit. -/
def descend (t : Tree) (topBit midBit : Nat) : Nat :=
  assemble topBit midBit (leastSignificantBit (t.leafAt (leafKey topBit midBit)))

/-- The smallest set id that is at least `startId`. -/
def findFirstLeftInclusive (t : Tree) (startId : Nat) : Option Nat :=
  if startId > maxBinId then none
  else
    let top0 := top startId
    let mid0 := mid startId
    let leafMasked := maskFrom (t.leafAt (leafKey top0 mid0)) (lo startId)
    if leafMasked ≠ 0#256 then some (assemble top0 mid0 (leastSignificantBit leafMasked))
    else
      let midMasked := maskFrom (t.midAt top0) (min (mid0 + 1) 255)
      -- byte 255 has no mid bit after it
      if mid0 ≠ 255 ∧ midMasked ≠ 0#256 then
        some (descend t top0 (leastSignificantBit midMasked))
      else if top0 = 255 then none
      else
        let rootMasked := maskFrom t.root (min (top0 + 1) 255)
        if rootMasked = 0#256 then none
        else
          let topBit := leastSignificantBit rootMasked
          some (descend t topBit (leastSignificantBit (t.midAt topBit)))

/-! ### Runs -/

inductive Op where
  | add (id : Nat)
  | remove (id : Nat)

def Op.id : Op → Nat
  | .add id => id
  | .remove id => id

def step (op : Op) (t : Tree) : Tree :=
  match op with
  | .add id => (BinTree.add t id).1
  | .remove id => (BinTree.remove t id).1

end Rudis.BinTree
