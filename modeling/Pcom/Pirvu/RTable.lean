import Mathlib.Data.Int.Notation
import Pcom.Lib.BitTrie
import Pcom.Lib.Ipv4

/-!
# The routing table of the trie router

`rtable_entry.h`, `trie.h` and `rtable.h`: each row of the file becomes an entry and goes into a trie
under the low bits of its prefix word, as many as its mask is long.  `findBestEntry` walks down by the bits
of the destination word.  Both words are in network byte order on a little-endian machine.

The bit kept in every node is never read and is left out; the text of the file is taken as parsed.
-/

namespace Pcom.Pirvu.RTable

open Pcom.Lib.BitTrie Pcom.Lib.BitTrie.Trie Pcom.Lib.Ipv4

/-- `getMaskLength`: the leading one bits, of which bit `0` is not looked at. -/
def getMaskLength (mask : BitVec 32) : ℕ :=
  (((List.range 31).map fun k => 31 - k).takeWhile fun i => mask.getLsbD i).length

/-- `struct rTableEntry`; the constructors set `maskLen` from the mask. The mask is in host order. -/
structure RTableEntry where
  pfx : BitVec 32
  nextHop : BitVec 32
  mask : BitVec 32
  interface : ℤ
  deriving DecidableEq

def RTableEntry.maskLen (e : RTableEntry) : ℕ := getMaskLength e.mask

/-- `rTableEntry()`. -/
def empty : RTableEntry := ⟨0, 0, 0, 0⟩

/-- A row of the file: prefix, next hop and mask as `inet_aton` stores them, and the interface. -/
structure Row where
  pfx : BitVec 32
  nextHop : BitVec 32
  mask : BitVec 32
  interface : ℤ

def Row.entry (row : Row) : RTableEntry := ⟨row.pfx, row.nextHop, swapBytes row.mask, row.interface⟩

/-- The bits an entry is stored under: `(prefix >> i) & 1` for `i < maskLen`. -/
def path (e : RTableEntry) : List Bool := (List.range e.maskLen).map fun i => e.pfx.getLsbD i

/-- `Trie::insert` for one row after the other. -/
def parseRTable (rows : List Row) : Trie RTableEntry :=
  rows.foldl (fun root row => insert empty row.entry (path row.entry) root) (node empty null null)

/-- `Trie::getPrefix`. -/
def getPrefix (root : Trie RTableEntry) (elem : BitVec 32) : RTableEntry :=
  if 0 < elem then descend 32 (fun i => elem.getLsbD i) (root.child (elem.getLsbD 0)) 1 empty
  else empty

def findBestEntry (rows : List Row) (ip : BitVec 32) : RTableEntry := getPrefix (parseRTable rows) ip

theorem getMaskLength_le (mask : BitVec 32) : getMaskLength mask ≤ 31 := by
  have h := (List.takeWhile_prefix (fun i => mask.getLsbD i)
    (l := (List.range 31).map fun k => 31 - k)).length_le
  rwa [List.length_map, List.length_range] at h

theorem length_path (e : RTableEntry) : (path e).length = e.maskLen := by
  rw [path, List.length_map, List.length_range]

theorem parseRTable_eq (rows : List Row) :
    parseRTable rows = insertAll empty path id (node empty null null) (rows.map Row.entry) := by
  rw [parseRTable, insertAll, List.foldl_map]
  rfl

end Pcom.Pirvu.RTable
