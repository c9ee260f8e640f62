import TynKernel.Lib.Bytes

/-!
The embedded archive: a cpio image in the newc format. Each entry is a header of 110 bytes with
fields of eight hexadecimal digits, then the name and the contents, both padded to four bytes.
Reading a slice outside the image stops the kernel, which is the result none.
-/
namespace TynKernel.Vfs
open Bytes

abbrev Path := List UInt8

def hexDigit (b : UInt8) : Nat :=
  if 48 ≤ b.toNat ∧ b.toNat ≤ 57 then b.toNat - 48
  else if 97 ≤ b.toNat ∧ b.toNat ≤ 102 then b.toNat - 97 + 10
  else if 65 ≤ b.toNat ∧ b.toNat ≤ 70 then b.toNat - 65 + 10
  else 0

def parseHex (digits : List UInt8) : Nat :=
  digits.foldl (fun val b => (val <<< 4) % 2 ^ 64 ||| hexDigit b) 0

def slice (data : List UInt8) (first last : Nat) : Option (List UInt8) :=
  if first ≤ last ∧ last ≤ data.length then some ((data.drop first).take (last - first)) else none

def align4 (n : Nat) : Nat := (n + 3) / 4 * 4

def normalized (path : Path) : Path :=
  if (text "/").isPrefixOf path then path.drop 1
  else if (text "./").isPrefixOf path then path.drop 2
  else path

/-- The loop of cpio_lookup from an entry on. Each turn goes on by 110 bytes or more, so that
    the length of the image is fuel enough. -/
def cpioLookupFrom (data : List UInt8) (path : Path) :
    (fuel offset : Nat) → Option (Option (Nat × Nat))
  | 0, _ => some none
  | fuel + 1, offset =>
    if offset + 110 ≤ data.length then do
      let magic ← slice data offset (offset + 6)
      if magic ≠ text "070701" then return none
      let filesize := parseHex (← slice data (offset + 54) (offset + 62))
      let namesize := parseHex (← slice data (offset + 94) (offset + 102))
      let nameStart := offset + 110
      let nameEnd := nameStart + namesize - 1
      let dataStart := align4 (nameStart + namesize)
      let dataEnd := dataStart + filesize
      if data.length < nameEnd ∨ data.length < dataEnd then return none
      let entryName ← slice data nameStart nameEnd
      if entryName = text "TRAILER!!!" then return none
      if entryName = normalized path then return some (dataStart, filesize)
      cpioLookupFrom data path fuel (align4 dataEnd)
    else some none

def cpioLookup (data : List UInt8) (path : Path) : Option (Option (Nat × Nat)) :=
  cpioLookupFrom data path data.length 0

def isDirPrefixFrom (data stem : List UInt8) : (fuel offset : Nat) → Option Bool
  | 0, _ => some false
  | fuel + 1, offset =>
    if offset + 110 < data.length then do
      let magic ← slice data offset (offset + 6)
      if magic ≠ text "070701" then return false
      let namesize := parseHex (← slice data (offset + 94) (offset + 102))
      let nameStart := offset + 110
      let nameEnd := nameStart + namesize - 1
      if data.length < nameEnd then return false
      let name ← slice data nameStart nameEnd
      if name = text "TRAILER!!!" then return false
      if stem.isPrefixOf name then return true
      let filesize := parseHex (← slice data (offset + 54) (offset + 62))
      isDirPrefixFrom data stem fuel (align4 (align4 (nameStart + namesize) + filesize))
    else some false

def isDirPrefix (data : List UInt8) (path : Path) : Option Bool :=
  let p := if (text "/").isPrefixOf path then path.drop 1 else path
  if 127 ≤ p.length then some false
  else
    let stem := if (text "/").isSuffixOf p then p else p ++ text "/"
    isDirPrefixFrom data stem data.length 0

theorem align4_le (n : Nat) : n ≤ align4 n := by
  unfold align4
  omega

end TynKernel.Vfs
