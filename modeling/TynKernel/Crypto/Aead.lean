import Mathlib.Data.List.Basic

/-!
The call crypto_one_time_aead of the crypto NIF. What the emulator and the cipher crates do is
known by their laws only, and a conversion of a slice to an array of another length is a
panic.
-/
namespace TynKernel.Crypto

/-- Erlang terms, as far as the NIF tells them apart. -/
inductive Term where
  | atom (name : String)
  | bin (bytes : List UInt8)
  | int (value : Int)
  | nil
  | cons (head tail : Term)
  | tuple (first second : Term)
  | other
  deriving DecidableEq, Repr

/-- A NIF that does not return a term raises badarg, or has reached a panic. -/
inductive Stop where
  | badarg | panic
  deriving DecidableEq, Repr

/-- The functions of the emulator. The text of an atom has to fit into the buffer with a zero
    behind it. -/
class Erts where
  inspectIolistAsBinary : Term → Option (List UInt8)
  getAtom : (len : Nat) → Term → Option (List UInt8)
  inspect_bin : ∀ bytes, inspectIolistAsBinary (.bin bytes) = some bytes
  getAtom_ascii : ∀ len name, name.length < len → name.toList.all (·.toNat < 128) →
    getAtom len (.atom name) = some (name.toList.map fun c => UInt8.ofNat c.toNat)

def GenericArray (size : Nat) : Type := { bytes : List UInt8 // bytes.length = size }

def GenericArray.fromSlice (size : Nat) (slice : List UInt8) : Except Stop (GenericArray size) :=
  if same : slice.length = size then .ok ⟨slice, same⟩ else .error .panic

/-- A cipher of the crates. A text that is too long is refused. What was encrypted is decrypted
    with its own tag and no other one. -/
structure Aead (keySize : Nat) where
  encryptInPlaceDetached : GenericArray keySize → GenericArray 12 → (aad buf : List UInt8) →
    Option (List UInt8 × GenericArray 16)
  decryptInPlaceDetached : GenericArray keySize → GenericArray 12 → (aad buf : List UInt8) →
    GenericArray 16 → Option (List UInt8)
  inverts : ∀ key nonce aad buf text tag,
    encryptInPlaceDetached key nonce aad buf = some (text, tag) →
      decryptInPlaceDetached key nonce aad text tag = some buf
  rejects : ∀ key nonce aad buf text tag tag',
    encryptInPlaceDetached key nonce aad buf = some (text, tag) → tag' ≠ tag →
      decryptInPlaceDetached key nonce aad text tag' = none

inductive Cipher where
  | aes128Gcm | aes256Gcm | chacha20Poly1305
  deriving DecidableEq, Repr

def Cipher.keySize : Cipher → Nat
  | .aes128Gcm => 16
  | .aes256Gcm => 32
  | .chacha20Poly1305 => 32

def Cipher.name : Cipher → String
  | .aes128Gcm => "aes_128_gcm"
  | .aes256Gcm => "aes_256_gcm"
  | .chacha20Poly1305 => "chacha20_poly1305"

def Cipher.ofName (name : String) : Option Cipher :=
  if name = "aes_128_gcm" then some .aes128Gcm
  else if name = "aes_256_gcm" then some .aes256Gcm
  else if name = "chacha20_poly1305" then some .chacha20Poly1305
  else none

abbrev Crates := (cipher : Cipher) → Aead cipher.keySize

structure Request where
  cipher : String
  key : List UInt8
  nonce : GenericArray 12
  intext : List UInt8
  aad : List UInt8

theorem fromSlice_ok (array : GenericArray size) :
    GenericArray.fromSlice size array.val = .ok array := by
  rw [GenericArray.fromSlice, dif_pos array.property]
  rfl

theorem fromSlice_panic_iff :
    GenericArray.fromSlice size slice = .error .panic ↔ slice.length ≠ size := by
  unfold GenericArray.fromSlice
  split
  · rename_i same
    exact ⟨fun stops => (by cases stops), fun other => absurd same other⟩
  · rename_i other
    exact ⟨fun _ => other, fun _ => rfl⟩

theorem ofName_name (cipher : Cipher) : Cipher.ofName cipher.name = some cipher := by
  cases cipher <;> rfl

/-- What a caller may get: a pair, a plaintext or the atom error, as the arity says, or badarg. -/
inductive Answered : (argc : Nat) → Except Stop Term → Prop where
  | encrypted (buf tag : List UInt8) : Answered 6 (.ok (.tuple (.bin buf) (.bin tag)))
  | decrypted (buf : List UInt8) : Answered 7 (.ok (.bin buf))
  | mismatch : Answered 7 (.ok (.atom "error"))
  | badarg (argc : Nat) : Answered argc (.error .badarg)

theorem answered_no_panic : ¬ Answered argc (.error .panic) := by
  intro answered
  cases answered

theorem bind_eq_error {α β : Type} {x : Except Stop α} {f : α → Except Stop β} {e : Stop} :
    (x >>= f) = .error e ↔ x = .error e ∨ ∃ a, x = .ok a ∧ f a = .error e := by
  cases x with
  | ok a =>
    constructor
    · intro stops
      exact .inr ⟨a, rfl, stops⟩
    · rintro (same | ⟨b, same, stops⟩)
      · cases same
      · cases same
        exact stops
  | error =>
    constructor
    · intro stops
      cases stops
      exact .inl rfl
    · rintro (same | ⟨b, same, _⟩)
      · cases same
        rfl
      · cases same

section
variable [Erts]

def getBin (term : Term) : Except Stop (List UInt8) :=
  match Erts.inspectIolistAsBinary term with
  | some bytes => .ok bytes
  | none => .error .badarg

def getAtom (term : Term) : Except Stop String :=
  match (Erts.getAtom 24 term).bind fun bytes => String.fromUTF8? ⟨bytes.toArray⟩ with
  | some name => .ok name
  | none => .error .badarg

def request (argv : List Term) : Except Stop Request := do
  let cipher ← getAtom (argv.getD 0 .nil)
  let key ← getBin (argv.getD 1 .nil)
  let iv ← getBin (argv.getD 2 .nil)
  let intext ← getBin (argv.getD 3 .nil)
  let aad ← getBin (argv.getD 4 .nil)
  if iv.length ≠ 12 then .error .badarg
  else do
    let nonce ← GenericArray.fromSlice 12 iv
    return ⟨cipher, key, nonce, intext, aad⟩

def run {keySize : Nat} (c : Aead keySize) (req : Request) (encrypt : Bool) (tagArg : Term) :
    Except Stop Term :=
  if right : req.key.length = keySize then
    if encrypt then
      match c.encryptInPlaceDetached ⟨req.key, right⟩ req.nonce req.aad req.intext with
      | some (buf, tag) => .ok (.tuple (.bin buf) (.bin tag.val))
      | none => .error .badarg
    else do
      let tag ← getBin tagArg
      let tagGa ← GenericArray.fromSlice 16 tag
      match c.decryptInPlaceDetached ⟨req.key, right⟩ req.nonce req.aad req.intext tagGa with
      | some buf => return .bin buf
      | none => return .atom "error"
  else .error .badarg

def dispatch (crates : Crates) (argv : List Term) (req : Request) : Except Stop Term :=
  match Cipher.ofName req.cipher with
  | some cipher => run (crates cipher) req (argv.length = 6) (argv.getD 5 .nil)
  | none => .error .badarg

def nifAead (crates : Crates) (argv : List Term) : Except Stop Term :=
  if argv.length ≠ 6 ∧ argv.length ≠ 7 then .error .badarg
  else request argv >>= dispatch crates argv

theorem getAtom_no_panic (term : Term) : getAtom term ≠ .error .panic := by
  unfold getAtom
  split <;> exact fun same => by cases same

theorem getBin_no_panic (term : Term) : getBin term ≠ .error .panic := by
  unfold getBin
  split <;> exact fun same => by cases same

theorem request_no_panic (argv : List Term) : request argv ≠ .error .panic := by
  intro stops
  rcases bind_eq_error.mp stops with atom | ⟨cipher, _, stops⟩
  · exact getAtom_no_panic _ atom
  rcases bind_eq_error.mp stops with bin | ⟨key, _, stops⟩
  · exact getBin_no_panic _ bin
  rcases bind_eq_error.mp stops with bin | ⟨iv, _, stops⟩
  · exact getBin_no_panic _ bin
  rcases bind_eq_error.mp stops with bin | ⟨intext, _, stops⟩
  · exact getBin_no_panic _ bin
  rcases bind_eq_error.mp stops with bin | ⟨aad, _, stops⟩
  · exact getBin_no_panic _ bin
  split at stops
  · cases stops
  · rename_i twelve
    rcases bind_eq_error.mp stops with slice | ⟨nonce, _, done⟩
    · exact twelve (fromSlice_panic_iff.mp slice)
    · cases done

/-- A decryption that is in order except that the tag does not have sixteen bytes. -/
def OddTag (argv : List Term) : Prop :=
  argv.length = 7 ∧ ∃ req cipher tag, request argv = .ok req ∧
    Cipher.ofName req.cipher = some cipher ∧ req.key.length = cipher.keySize ∧
    getBin (argv.getD 5 .nil) = .ok tag ∧ tag.length ≠ 16

theorem run_encrypts (c : Aead keySize) (req : Request) (tagArg : Term) :
    Answered 6 (run c req true tagArg) := by
  unfold run
  split
  · rw [if_pos rfl]
    split
    · exact .encrypted _ _
    · exact .badarg _
  · exact .badarg _

theorem run_decrypts (c : Aead keySize) (req : Request) (tagArg : Term) :
    Answered 7 (run c req false tagArg) ∨
      (run c req false tagArg = .error .panic ∧ req.key.length = keySize ∧
        ∃ tag, getBin tagArg = .ok tag ∧ tag.length ≠ 16) := by
  unfold run
  split
  · rename_i right
    cases arg : getBin tagArg with
    | error e =>
      cases e with
      | badarg => exact .inl (.badarg _)
      | panic => exact absurd arg (getBin_no_panic _)
    | ok tag =>
      by_cases length : tag.length = 16
      · left
        have slice := fromSlice_ok ⟨tag, length⟩
        show Answered 7 (GenericArray.fromSlice 16 tag >>= _)
        rw [slice]
        show Answered 7 (match c.decryptInPlaceDetached _ _ _ _ _ with | some _ => _ | none => _)
        split
        · exact .decrypted _
        · exact .mismatch
      · right
        refine ⟨?_, right, tag, rfl, length⟩
        show (GenericArray.fromSlice 16 tag >>= _) = _
        rw [fromSlice_panic_iff.mpr length]
        rfl
  · exact .inl (.badarg _)

theorem nifAead_answers (crates : Crates) (argv : List Term) :
    Answered argv.length (nifAead crates argv) ∨ OddTag argv := by
  unfold nifAead
  split
  · exact .inl (.badarg _)
  cases parsed : request argv with
  | error e =>
    cases e with
    | badarg => exact .inl (.badarg _)
    | panic => exact absurd parsed (request_no_panic argv)
  | ok req =>
    change Answered _ (dispatch crates argv req) ∨ _
    unfold dispatch
    split
    · rename_i cipher named
      by_cases six : argv.length = 6
      · rw [six]
        exact .inl (run_encrypts _ _ _)
      have seven : argv.length = 7 := by omega
      rw [seven]
      rcases run_decrypts (crates cipher) req (argv.getD 5 .nil) with done | ⟨_, key, tag⟩
      · exact .inl done
      · obtain ⟨tag, arg, odd⟩ := tag
        exact .inr ⟨seven, req, cipher, tag, parsed, named, key, arg, odd⟩
    · exact .inl (.badarg _)

theorem nifAead_panics (odd : OddTag argv) : nifAead crates argv = .error .panic := by
  obtain ⟨seven, req, cipher, tag, parsed, named, key, arg, length⟩ := odd
  unfold nifAead
  rw [if_neg (by omega), parsed]
  change dispatch crates argv req = _
  have decrypt : decide (argv.length = 6) = false := by simp [seven]
  simp only [dispatch, named, run, key, decrypt, arg]
  change (GenericArray.fromSlice 16 tag >>= _) = _
  rw [fromSlice_panic_iff.mpr length]
  rfl

theorem getAtom_name (cipher : Cipher) : getAtom (.atom cipher.name) = .ok cipher.name := by
  rw [getAtom, Erts.getAtom_ascii 24 cipher.name (by cases cipher <;> decide)
    (by cases cipher <;> decide)]
  cases cipher <;> decide

theorem getBin_bin (bytes : List UInt8) : getBin (.bin bytes) = .ok bytes := by
  rw [getBin, Erts.inspect_bin]

def arguments (cipher : Cipher) (key : List UInt8) (iv : GenericArray 12)
    (intext aad : List UInt8) (rest : List Term) : List Term :=
  .atom cipher.name :: .bin key :: .bin iv.val :: .bin intext :: .bin aad :: rest

theorem request_arguments (cipher : Cipher) (key : List UInt8) (iv : GenericArray 12)
    (intext aad : List UInt8) (rest : List Term) :
    request (arguments cipher key iv intext aad rest) =
      .ok ⟨cipher.name, key, iv, intext, aad⟩ := by
  unfold request arguments
  simp only [List.getD_cons_zero, List.getD_cons_succ]
  rw [getAtom_name, getBin_bin, getBin_bin, getBin_bin, getBin_bin]
  change (if iv.val.length ≠ 12 then _ else GenericArray.fromSlice 12 iv.val >>= _) = _
  rw [if_neg (not_not.mpr iv.property), fromSlice_ok]
  rfl

theorem nifAead_arguments (crates : Crates) (cipher : Cipher) (key : List UInt8)
    (iv : GenericArray 12) (intext aad : List UInt8) (arity : rest.length = 1 ∨ rest.length = 2) :
    nifAead crates (arguments cipher key iv intext aad rest) =
      run (crates cipher) ⟨cipher.name, key, iv, intext, aad⟩ (rest.length = 1)
        (rest.getD 0 .nil) := by
  have argc : (arguments cipher key iv intext aad rest).length = rest.length + 5 := rfl
  unfold nifAead
  rw [if_neg (by omega), request_arguments]
  change dispatch crates _ _ = _
  have six : (rest.length + 5 = 6) = (rest.length = 1) := by
    simp
  simp only [dispatch, ofName_name, argc, six]
  rfl

theorem run_encrypt (c : Aead keySize) (name : String) (key : GenericArray keySize)
    (iv : GenericArray 12) (text aad : List UInt8) (tagArg : Term) :
    run c ⟨name, key.val, iv, text, aad⟩ true tagArg =
      match c.encryptInPlaceDetached key iv aad text with
      | some (buf, tag) => .ok (.tuple (.bin buf) (.bin tag.val))
      | none => .error .badarg := by
  unfold run
  rw [dif_pos key.property, if_pos rfl]
  rfl

theorem run_decrypt (c : Aead keySize) (name : String) (key : GenericArray keySize)
    (iv : GenericArray 12) (text aad : List UInt8) (tag : GenericArray 16) :
    run c ⟨name, key.val, iv, text, aad⟩ false (.bin tag.val) =
      match c.decryptInPlaceDetached key iv aad text tag with
      | some buf => .ok (.bin buf)
      | none => .ok (.atom "error") := by
  unfold run
  rw [dif_pos key.property, if_neg Bool.false_ne_true, getBin_bin]
  change (GenericArray.fromSlice 16 tag.val >>= _) = _
  rw [fromSlice_ok]
  rfl

theorem round_trip (crates : Crates) (cipher : Cipher) (key : GenericArray cipher.keySize)
    (iv : GenericArray 12) (text aad : List UInt8) (flag flag' : Term) :
    (∃ buf tag,
      nifAead crates (arguments cipher key.val iv text aad [flag]) =
        .ok (.tuple (.bin buf) (.bin tag)) ∧
      nifAead crates (arguments cipher key.val iv buf aad [.bin tag, flag']) = .ok (.bin text)) ∨
    ((crates cipher).encryptInPlaceDetached key iv aad text = none ∧
      nifAead crates (arguments cipher key.val iv text aad [flag]) = .error .badarg) := by
  have one : [flag].length = 1 ∨ [flag].length = 2 := .inl rfl
  have encryption : nifAead crates (arguments cipher key.val iv text aad [flag]) = _ :=
    (nifAead_arguments crates cipher key.val iv text aad one).trans (run_encrypt ..)
  cases result : (crates cipher).encryptInPlaceDetached key iv aad text with
  | none =>
    rw [result] at encryption
    exact .inr ⟨rfl, encryption⟩
  | some pair =>
    obtain ⟨buf, tag⟩ := pair
    rw [result] at encryption
    refine .inl ⟨buf, tag.val, encryption, ?_⟩
    have two : [.bin tag.val, flag'].length = 1 ∨ [.bin tag.val, flag'].length = 2 :=
      .inr rfl
    rw [nifAead_arguments crates cipher key.val iv buf aad two]
    refine (run_decrypt ..).trans ?_
    rw [(crates cipher).inverts key iv aad text buf tag result]

/-- A call is answered if and only if it is not a decryption with a tag of another length than
    sixteen bytes. What was encrypted is decrypted again. -/
theorem aead_answers_iff (crates : Crates) (argv : List Term) :
    (Answered argv.length (nifAead crates argv) ↔ ¬ OddTag argv) ∧
    ∀ (cipher : Cipher) (key : GenericArray cipher.keySize) (iv : GenericArray 12)
      (text aad : List UInt8) (flag flag' : Term),
      (∃ buf tag,
        nifAead crates (arguments cipher key.val iv text aad [flag]) =
          .ok (.tuple (.bin buf) (.bin tag)) ∧
        nifAead crates (arguments cipher key.val iv buf aad [.bin tag, flag']) = .ok (.bin text)) ∨
      ((crates cipher).encryptInPlaceDetached key iv aad text = none ∧
        nifAead crates (arguments cipher key.val iv text aad [flag]) = .error .badarg) := by
  refine ⟨⟨?_, ?_⟩, round_trip crates⟩
  · intro answered odd
    rw [nifAead_panics odd] at answered
    exact answered_no_panic answered
  · intro even
    exact (nifAead_answers crates argv).resolve_right even

end

def emptyAead (keySize : Nat) : Aead keySize where
  encryptInPlaceDetached _ _ _ buf :=
    if buf = [] then some ([], ⟨List.replicate 16 0, rfl⟩) else none
  decryptInPlaceDetached _ _ _ _ tag := if tag.val = List.replicate 16 0 then some [] else none
  inverts := by
    intro key nonce aad buf text tag done
    split at done
    · rename_i empty
      cases done
      rw [empty]
      rfl
    · cases done
  rejects := by
    intro key nonce aad buf text tag tag' done other
    split at done
    · cases done
      exact if_neg fun same => other (Subtype.ext same)
    · cases done

def truncatedToken : List Term :=
  arguments .aes128Gcm (List.replicate 16 0) ⟨List.replicate 12 0, rfl⟩ [] []
    [.bin (List.replicate 15 0), .atom "false"]

instance plainErts : Erts where
  inspectIolistAsBinary
    | .bin bytes => some bytes
    | _ => none
  getAtom
    | len, .atom name =>
      if name.length < len ∧ name.toList.all (·.toNat < 128) then
        some (name.toList.map fun c => UInt8.ofNat c.toNat)
      else none
    | _, _ => none
  inspect_bin _ := rfl
  getAtom_ascii _ _ short ascii := if_pos ⟨short, ascii⟩

/-- There are an emulator and ciphers with these laws, and with all of them it panics. -/
theorem truncated_tag_panics :
    Nonempty Erts ∧ Nonempty Crates ∧
      ∀ [Erts] (crates : Crates), nifAead crates truncatedToken = .error .panic ∧
        ¬ Answered truncatedToken.length (nifAead crates truncatedToken) := by
  refine ⟨⟨plainErts⟩, ⟨fun cipher => emptyAead cipher.keySize⟩, ?_⟩
  intro _ crates
  have odd : OddTag truncatedToken :=
    ⟨rfl, _, .aes128Gcm, _, request_arguments .., rfl, rfl, getBin_bin _, by decide⟩
  rw [nifAead_panics odd]
  exact ⟨rfl, answered_no_panic⟩

end TynKernel.Crypto
