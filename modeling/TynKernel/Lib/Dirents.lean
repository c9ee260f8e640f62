import TynKernel.Lib.Bytes

/-!
Directory records as getdents64 hands them out: a number, the offset of the next record, the
length of the record, a type and a name that ends with a zero.
-/
namespace TynKernel.Dirents
open Bytes List

structure Dirent where
  ino : Nat
  off : Nat
  kind : UInt8
  name : List UInt8
  deriving DecidableEq, Repr

def recordLen (name : List UInt8) : Nat := (19 + (name.length + 1) + 7) / 8 * 8

def Dirent.bytes (d : Dirent) : List UInt8 :=
  encodeLE 8 d.ino ++ (encodeLE 8 d.off ++ (encodeLE 2 (recordLen d.name) ++ ([d.kind] ++
    (d.name ++ List.replicate (recordLen d.name - 19 - d.name.length) 0))))

def decode : (fuel : Nat) → List UInt8 → List (List UInt8 × UInt8)
  | 0, _ => []
  | fuel + 1, bytes =>
    let len := readLE (image bytes) 2 16
    if bytes.length < 19 ∨ len = 0 then []
    else
      ((bytes.drop 19).takeWhile (· ≠ 0), bytes.getD 18 0) :: decode fuel (bytes.drop len)

theorem recordLen_bounds (name : List UInt8) :
    20 + name.length ≤ recordLen name ∧ recordLen name ≤ 27 + name.length := by
  unfold recordLen
  omega

theorem bytes_length (d : Dirent) : d.bytes.length = recordLen d.name := by
  have bounds := recordLen_bounds d.name
  simp only [Dirent.bytes, length_append, encodeLE_length, length_singleton,
    length_replicate]
  omega

theorem bytes_fields (d : Dirent) (rest : List UInt8) (small : recordLen d.name < 2 ^ 16) :
    readLE (image (d.bytes ++ rest)) 2 16 = recordLen d.name ∧
      (d.bytes ++ rest).getD 18 0 = d.kind ∧
      (d.bytes ++ rest).drop 19 =
        d.name ++ (List.replicate (recordLen d.name - 19 - d.name.length) 0 ++ rest) := by
  have whole : Holds (image (d.bytes ++ rest)) 0 (d.bytes ++ rest) := image_holds _
  have first : (encodeLE 8 d.ino).length = 8 := encodeLE_length ..
  have second : (encodeLE 8 d.off).length = 8 := encodeLE_length ..
  have third : (encodeLE 2 (recordLen d.name)).length = 2 := encodeLE_length ..
  obtain ⟨here, _⟩ := holds_append whole
  obtain ⟨_, behind⟩ := holds_append here
  obtain ⟨_, behind⟩ := holds_append behind
  obtain ⟨len, behind⟩ := holds_append behind
  obtain ⟨kind, _⟩ := holds_append behind
  refine ⟨readLE_encodeLE small len, (holds_cons kind).1, ?_⟩
  have split : d.bytes ++ rest = (encodeLE 8 d.ino ++ (encodeLE 8 d.off ++
      (encodeLE 2 (recordLen d.name) ++ [d.kind]))) ++
      (d.name ++ (List.replicate (recordLen d.name - 19 - d.name.length) 0 ++ rest)) := by
    simp [Dirent.bytes]
  rw [split]
  refine drop_left' ?_
  simp [first, second, third]

theorem takeWhile_name (clean : 0 ∉ name) (n : Nat) (rest : List UInt8) :
    (name ++ (List.replicate (n + 1) 0 ++ rest)).takeWhile (· ≠ 0) = name := by
  induction name with
  | nil => simp [replicate_succ]
  | cons b tail ih =>
    have first : b ≠ 0 := fun same => clean (same ▸ mem_cons_self)
    have later : 0 ∉ tail := fun member => clean (mem_cons_of_mem _ member)
    rw [cons_append, takeWhile_cons_of_pos (by simp [first]), ih later]

theorem decode_bytes {ds : List Dirent} (clean : ∀ d ∈ ds, 0 ∉ d.name)
    (small : ∀ d ∈ ds, recordLen d.name < 2 ^ 16) (enough : ds.length ≤ fuel) :
    decode fuel (ds.map Dirent.bytes).flatten = ds.map fun d => (d.name, d.kind) := by
  induction ds generalizing fuel with
  | nil =>
    cases fuel with
    | zero | succ fuel => rfl
  | cons d rest ih =>
    cases fuel with
    | zero => cases enough
    | succ =>
      have bounds := recordLen_bounds d.name
      have length := bytes_length d
      obtain ⟨len, kind, name⟩ := bytes_fields d (rest.map Dirent.bytes).flatten
        (small d mem_cons_self)
      have long : ¬ ((d.bytes ++ (rest.map Dirent.bytes).flatten).length < 19 ∨
          recordLen d.name = 0) := by
        rw [length_append]
        omega
      have zeros : recordLen d.name - 19 - d.name.length =
          (recordLen d.name - 20 - d.name.length) + 1 := by omega
      have later := ih (fun d' member => clean d' (mem_cons_of_mem _ member))
        (fun d' member => small d' (mem_cons_of_mem _ member)) (Nat.le_of_succ_le_succ enough)
      rw [map_cons, flatten_cons, decode]
      simp only [len, if_neg long, kind, name]
      rw [zeros, takeWhile_name (clean d mem_cons_self), ← length, drop_left, later]
      rfl

end TynKernel.Dirents
