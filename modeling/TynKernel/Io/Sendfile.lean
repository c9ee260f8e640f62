import TynKernel.Vfs.Reads

/-!
sys_sendfile: chunks of an archive file handed to a socket that takes a first part of each, or
refuses it. Only what the socket has taken moves the offset.
-/
namespace TynKernel.Io
open Numbers Option Runs Streams Vfs
variable {S : Type}

def chunk : Nat := 4096

inductive Left where
  | ended (off total : Nat)
  | failed (code : Int)
  deriving DecidableEq, Repr

/-- The loop of sys_sendfile. Each further turn follows a chunk taken in full, so that the count
    is fuel enough. -/
def sendfileFrom (sink : Sink UInt8 S) (v : State) (inFd : Int) :
    (fuel : Nat) → S → (off total remaining : Nat) → Option (S × Left)
  | 0, _, _, _, _ => none
  | fuel + 1, s, off, total, remaining =>
    if 0 < remaining then
      let want := min remaining chunk
      match v.pread inFd want off with
      | none => none
      | some (nread, buf) =>
        if nread < 0 then some (s, if 0 < total then .ended off total else .failed nread)
        else if nread = 0 then some (s, .ended off total)
        else
          let result := sink.write s buf
          let nsent := result.2
          if nsent < 0 then some (result.1, if 0 < total then .ended off total else .failed nsent)
          else
            let nsent := nsent.toNat
            if nsent < nread.toNat then some (result.1, .ended (off + nsent) (total + nsent))
            else
              sendfileFrom sink v inFd fuel result.1 (off + nsent) (total + nsent)
                (remaining - nsent)
    else some (s, .ended off total)

structure Sent (S : Type) where
  socket : S
  files : State
  offset : Option Nat
  answer : Int

def startPosition (v : State) (inFd : Int) : Option Nat → State × Int
  | some word => (v, word)
  | none => v.lseek inFd 0 1

def finish (v : State) (inFd : Int) (offset : Option Nat) : Option (S × Left) → Option (Sent S)
  | none => none
  | some (s, .failed code) => some ⟨s, v, offset, code⟩
  | some (s, .ended off total) =>
    match offset with
    | some _ => some ⟨s, v, some off, asI64 total⟩
    | none => some ⟨s, (v.lseek inFd (asI64 off) 0).1, none, asI64 total⟩

def sysSendfile (sink : Sink UInt8 S) (isSocketFd : Bool) (s : S) (v : State) (inFd : Int)
    (offset : Option Nat) (count : Nat) : Option (Sent S) :=
  if !isSocketFd then some ⟨s, v, offset, -22⟩
  else if !v.isVfsFd inFd then some ⟨s, v, offset, -22⟩
  else
    let p := startPosition v inFd offset
    if offset.isNone ∧ p.2 < 0 then some ⟨s, p.1, offset, p.2⟩
    else
      finish p.1 inFd offset (sendfileFrom sink p.1 inFd (count + 1) s p.2.toNat 0 count)

variable {v : State} {fd : Int} {f : OpenFile} {sink : Sink UInt8 S} {count : Nat}

def Short (sink : Sink UInt8 S) (s' : S) : Prop :=
  ∃ s buf, (sink.write s buf).1 = s' ∧ (sink.write s buf).2 < buf.length

def Refuses (sink : Sink UInt8 S) (s : S) (buf : List UInt8) : Prop :=
  buf ≠ [] ∧ (sink.write s buf).2 < 0

section Loop
variable (within_ : Within v) (found : v.file fd = some f)
include within_ found

theorem chunk_length (off want : Nat) :
    (part (contents v.archive f) off want).length = min want (f.dataLen - off) := by
  rw [part, List.length_take, List.length_drop, contents_length (file_inside within_ found)]

theorem pread_chunk (want off : Nat) :
    v.pread fd want off = some (((part (contents v.archive f) off want).length : Int),
      part (contents v.archive f) off want) := by
  have same : part (contents v.archive f) off (min want (f.dataLen - off)) =
      part (contents v.archive f) off want := by
    rw [← chunk_length within_ found, part, part, List.length_take, ← List.take_eq_take_min]
  rw [pread_contents within_ found, same, chunk_length within_ found]

/-- The loop sends the file from the offset on, up to what is left of the count and of the file.
    It fails if nothing was sent before it and the first chunk is refused, and then sends nothing. -/
theorem sendfileFrom_takes (sink : Sink UInt8 S) (fuel : Nat) (s : S) (off total remaining : Nat)
    (enough : remaining < fuel) :
    ∃ s' left n, sendfileFrom sink v fd fuel s off total remaining = some (s', left) ∧
      n ≤ min remaining (f.dataLen - off) ∧
      sink.Took s s' (part (contents v.archive f) off n) ∧
      (left = .ended (off + n) (total + n) ∧ (total = 0 →
          ¬ Refuses sink s (part (contents v.archive f) off (min remaining chunk))) ∨
        n = 0 ∧ total = 0 ∧
          Refuses sink s (part (contents v.archive f) off (min remaining chunk)) ∧
          left = .failed
            (sink.write s (part (contents v.archive f) off (min remaining chunk))).2) ∧
      (n < min remaining (f.dataLen - off) → Short sink s') := by
  induction fuel generalizing s off total remaining with
  | zero => omega
  | succ fuel ih =>
    have nothing : sink.Took s s (part (contents v.archive f) off 0) := took_nothing sink s
    have length := chunk_length within_ found off (min remaining chunk)
    have firsts : ∀ n ≤ min remaining chunk,
        (part (contents v.archive f) off (min remaining chunk)).take n =
          part (contents v.archive f) off n := by
      intro n less
      rw [part, part, List.take_take, Nat.min_eq_left less]
    simp only [sendfileFrom, pread_chunk within_ found]
    generalize part (contents v.archive f) off (min remaining chunk) = buf at length firsts ⊢
    split
    · rw [if_neg (by omega)]
      split
      · -- the end of the file
        have none_ : ¬ Refuses sink s buf := fun refuses =>
          refuses.1 (List.eq_nil_of_length_eq_zero (by omega))
        refine ⟨s, _, 0, rfl, Nat.zero_le _, nothing, .inl ⟨rfl, fun _ => none_⟩, ?_⟩
        unfold chunk at length
        omega
      · have some_ : buf ≠ [] := by
          rintro rfl
          contradiction
        split
        · -- the socket takes nothing
          rename_i refused
          have same := sink.refused s _ refused
          refine ⟨_, _, 0, rfl, Nat.zero_le _, same.trans (List.append_nil _).symm, ?_,
            fun _ => ⟨s, buf, rfl, by omega⟩⟩
          by_cases progress : 0 < total
          · rw [if_pos progress]
            exact .inl ⟨rfl, by omega⟩
          · rw [if_neg progress]
            exact .inr ⟨rfl, by omega, ⟨some_, refused⟩, rfl⟩
        · rename_i valid
          have accepted : ¬ Refuses sink s buf := fun refuses => valid refuses.2
          obtain ⟨short, took⟩ := sink.took s _ (Int.not_lt.mp valid)
          rw [firsts _ (by omega)] at took
          split
          · -- the socket is full
            rename_i less
            refine ⟨_, _, _, rfl, by omega, took, .inl ⟨rfl, fun _ => accepted⟩, ?_⟩
            intro _
            exact ⟨s, buf, rfl, by omega⟩
          · generalize (sink.write s buf).2.toNat = n at *
            obtain ⟨s', left, m, loop, bound, rest, result, all⟩ :=
              ih (sink.write s buf).1 (off + n) (total + n) (remaining - n) (by omega)
            refine ⟨s', left, n + m, loop, by omega, ?_, .inl ⟨?_, fun _ => accepted⟩, ?_⟩
            · rw [← part_append]
              exact took_append took rest
            · rcases result with ⟨ended, _⟩ | ⟨_, progress, _⟩
              · rw [ended, Nat.add_assoc, Nat.add_assoc]
              · omega
            · intro less
              exact all (by omega)
    · have none_ : ¬ Refuses sink s buf := fun refuses =>
        refuses.1 (List.eq_nil_of_length_eq_zero (by omega))
      exact ⟨s, _, 0, rfl, Nat.zero_le _, nothing, .inl ⟨rfl, fun _ => none_⟩, by omega⟩

theorem sendfileFrom_full (full : ∀ buf, (sink.write s buf).2 ≤ 0) (progress : 0 < total)
    (fuel off remaining : Nat) :
    ∃ s', sendfileFrom sink v fd (fuel + 1) s off total remaining = some (s', .ended off total) := by
  simp only [sendfileFrom, pread_chunk within_ found, if_pos progress]
  generalize part (contents v.archive f) off (min remaining chunk) = buf
  have none_ := full buf
  split
  · rw [if_neg (by omega)]
    split
    · exact ⟨_, rfl⟩
    · split
      · exact ⟨_, rfl⟩
      · have zero : (sink.write s buf).2 = 0 := by omega
        rw [zero, if_pos (by omega)]
        exact ⟨_, rfl⟩
  · exact ⟨_, rfl⟩

theorem sendfileFrom_fills {room : S → Nat} {ready : S → Prop} (fills : Fills sink room ready)
    (fuel : Nat) {s : S} (isReady : ready s) (off total remaining : Nat)
    (enough : remaining < fuel) :
    ∃ s' n, n = min (min remaining (f.dataLen - off)) (room s) ∧
      sendfileFrom sink v fd fuel s off total remaining =
        some (s', .ended (off + n) (total + n)) := by
  induction fuel generalizing s off total remaining with
  | zero => omega
  | succ fuel ih =>
    have length := chunk_length within_ found off (min remaining chunk)
    simp only [sendfileFrom, pread_chunk within_ found]
    generalize part (contents v.archive f) off (min remaining chunk) = buf at length ⊢
    have takes := fills.takes s buf isReady
    unfold chunk at length
    split
    · rw [if_neg (by omega)]
      split
      · exact ⟨s, 0, by omega, rfl⟩
      · rw [if_neg (by omega), takes, Int.toNat_natCast, Int.toNat_natCast]
        split
        · exact ⟨_, _, by omega, rfl⟩
        · have all : min buf.length (room s) = buf.length := by omega
          rw [all]
          by_cases more : buf.length < room s
          · obtain ⟨again, left⟩ := fills.stays s buf isReady more
            obtain ⟨s', n, size, loop⟩ := ih again (off + buf.length) (total + buf.length)
              (remaining - buf.length) (by omega)
            refine ⟨s', buf.length + n, by omega, ?_⟩
            rw [loop, Nat.add_assoc, Nat.add_assoc]
          · obtain ⟨fuel, rfl⟩ : ∃ k, fuel = k + 1 := ⟨fuel - 1, by omega⟩
            obtain ⟨s', loop⟩ := sendfileFrom_full within_ found
              (fun more => fills.full s buf more isReady (by omega))
              (show 0 < total + buf.length by omega) fuel (off + buf.length)
              (remaining - buf.length)
            exact ⟨s', _, by omega, loop⟩
    · exact ⟨s, 0, by omega, rfl⟩

end Loop

def place (f : OpenFile) (offset : Option Nat) : Nat := offset.getD f.pos

/-- The answer to the first chunk, if there is one to send from a file to a socket. -/
def firstAnswer (sink : Sink UInt8 S) (isSocketFd : Bool) (s : S) (v : State) (fd : Int)
    (offset : Option Nat) (count : Nat) : Int :=
  match v.file fd with
  | some f =>
    let buf := part (contents v.archive f) (place f offset) (min count chunk)
    if !isSocketFd then -22 else if buf = [] then 0 else (sink.write s buf).2
  | none => -22

/-- An error is that of the first chunk, and then nothing is sent. Otherwise the call sends the
    file from its offset on, and all that was asked for unless a write is short. -/
structure Delivered (sink : Sink UInt8 S) (isSocketFd : Bool) (s : S) (v : State) (fd : Int)
    (offset : Option Nat) (count : Nat) (sent : Sent S) : Prop where
  accepted : 0 ≤ firstAnswer sink isSocketFd s v fd offset count → 0 ≤ sent.answer
  refused : firstAnswer sink isSocketFd s v fd offset count < 0 →
    sent.answer = firstAnswer sink isSocketFd s v fd offset count
  failed : sent.answer < 0 → sink.Took s sent.socket [] ∧ sent.files = v ∧ sent.offset = offset
  moved : 0 ≤ sent.answer → ∃ f, v.file fd = some f ∧
    sink.Took s sent.socket
      (part (contents v.archive f) (place f offset) sent.answer.toNat) ∧
    sent.answer.toNat = min ((sink.stream sent.socket).length - (sink.stream s).length)
      (min count ((contents v.archive f).length - place f offset)) ∧
    (sent.answer.toNat < min count ((contents v.archive f).length - place f offset) →
      Short sink sent.socket) ∧
    (∀ word, offset = some word → sent.files = v ∧
      sent.offset = some (word + sent.answer.toNat)) ∧
    (offset = none → sent.offset = none ∧ sent.files = v.setPos f (f.pos + sent.answer.toNat) ∧
      sent.files.file fd = some { f with pos := f.pos + sent.answer.toNat })

theorem sysSendfile_open (sink : Sink UInt8 S) (s : S) (within_ : Within v)
    (found : v.file fd = some f) (offset : Option Nat) (count : Nat) :
    sysSendfile sink true s v fd offset count =
      finish v fd offset (sendfileFrom sink v fd (count + 1) s (place f offset) 0 count) := by
  have known : v.isVfsFd fd = true := isVfsFd_file.mpr ⟨f, found⟩
  have start : startPosition v fd offset = (v, (place f offset : Int)) := by
    cases offset with
    | none => exact lseek_current within_ found
    | some => rfl
  have valid : ¬ ((place f offset : Nat) : Int) < 0 := by omega
  simp [sysSendfile, known, start, valid, and_false]

theorem delivered_count (within_ : Within v)
    (found : v.file fd = some f) (bound : n ≤ min count (f.dataLen - place f offset))
    (took : sink.Took s s' (part (contents v.archive f) (place f offset) n))
    (first : 0 ≤ firstAnswer sink true s v fd offset count)
    (short : n < min count (f.dataLen - place f offset) → Short sink s')
    (moved : ∀ word, offset = some word → files = v ∧ offset' = some (word + n))
    (seeked : offset = none → offset' = none ∧ files = v.setPos f (f.pos + n) ∧
      files.file fd = some { f with pos := f.pos + n }) :
    Delivered sink true s v fd offset count ⟨s', files, offset', n⟩ := by
  have length := contents_length (file_inside within_ found)
  have grown : (sink.stream s').length - (sink.stream s).length = n := by
    rw [took, List.length_append, part_length (by omega)]
    omega
  refine ⟨fun _ => Int.natCast_nonneg n, fun error => absurd first (Int.not_le.mpr error), ?_, ?_⟩
  · intro negative
    exact absurd negative (by simp only; omega)
  · intro _
    simp only [Int.toNat_natCast, grown]
    exact ⟨f, found, took, by rw [length]; omega, by rw [length]; exact short, moved, seeked⟩

theorem delivered_refused (first : firstAnswer sink isSocketFd s v fd offset count = code)
    (error : code < 0) (nothing : sink.Took s s' []) :
    Delivered sink isSocketFd s v fd offset count ⟨s', v, offset, code⟩ := by
  refine ⟨fun valid => first ▸ valid, fun _ => first.symm, fun _ => ⟨nothing, rfl, rfl⟩, ?_⟩
  intro valid
  exact absurd valid (Int.not_le.mpr error)

theorem firstAnswer_refused (unknown : isSocketFd = false ∨ v.file fd = none) :
    firstAnswer sink isSocketFd s v fd offset count = -22 := by
  unfold firstAnswer
  rcases unknown with rfl | missing
  · split <;> rfl
  · rw [missing]

theorem firstAnswer_open (found : v.file fd = some f) (sink : Sink UInt8 S) (s : S)
    (offset : Option Nat) (count : Nat) :
    firstAnswer sink true s v fd offset count =
      if part (contents v.archive f) (place f offset) (min count chunk) = [] then 0
      else (sink.write s (part (contents v.archive f) (place f offset) (min count chunk))).2 := by
  unfold firstAnswer
  rw [found]
  rfl

theorem sysSendfile_delivers (sink : Sink UInt8 S) (isSocketFd : Bool) (s : S) (within_ : Within v)
    (fd : Int) (offset : Option Nat) (count : Nat) :
    ∃ sent, sysSendfile sink isSocketFd s v fd offset count = some sent ∧
      Delivered sink isSocketFd s v fd offset count sent := by
  cases isSocketFd with
  | false =>
    exact ⟨_, rfl, delivered_refused (firstAnswer_refused (.inl rfl)) (by decide)
      (took_nothing sink s)⟩
  | true =>
    cases found : v.file fd with
    | none =>
      have unknown : v.isVfsFd fd = false := by
        rw [← Bool.not_eq_true, isVfsFd_file]
        rintro ⟨f, other⟩
        rw [found] at other
        cases other
      refine ⟨⟨s, v, offset, -22⟩, ?_,
        delivered_refused (firstAnswer_refused (.inr found)) (by decide) (took_nothing sink s)⟩
      simp [sysSendfile, unknown]
    | some f =>
      have inside := file_inside within_ found
      have fileLength := inside.length
      have first := firstAnswer_open found sink s offset count
      obtain ⟨s', left, n, loop, bound, took, result, short⟩ := sendfileFrom_takes within_ found
        sink (count + 1) s (place f offset) 0 count (Nat.lt_succ_self _)
      rw [sysSendfile_open sink s within_ found, loop]
      rcases result with ⟨ended, accepted⟩ | ⟨none_, _, ⟨some_, error⟩, failed⟩
      · have valid : 0 ≤ firstAnswer sink true s v fd offset count := by
          rw [first]
          split
          · exact Int.le_refl 0
          · rename_i some_
            exact Int.not_lt.mp fun error => accepted rfl ⟨some_, error⟩
        rw [Nat.zero_add] at ended
        have word : asI64 n = n := asI64_nat (by omega)
        subst ended
        cases offset with
        | some start =>
          refine ⟨⟨s', v, some (start + n), n⟩, ?_, ?_⟩
          · simp [finish, word, place]
          · refine delivered_count within_ found bound took valid short ?_ nofun
            intro start' same
            cases same
            exact ⟨rfl, rfl⟩
        | none =>
          have pos := inside.pos
          have room : f.pos + n ≤ f.dataLen := by
            simp only [place, getD_none] at bound
            omega
          have target : asI64 (f.pos + n : Nat) = (f.pos + n : Nat) := asI64_nat (by omega)
          refine ⟨⟨s', v.setPos f (f.pos + n), none, n⟩, ?_, ?_⟩
          · simp only [finish, word, place, getD_none, target, lseek_set within_ found room]
          · refine delivered_count within_ found bound took valid short nofun ?_
            intro _
            exact ⟨rfl, rfl, file_setPos found _⟩
      · rw [if_neg some_] at first
        subst failed
        rw [none_, part_zero] at took
        exact ⟨⟨s', v, offset, _⟩, rfl, delivered_refused first error took⟩

def resume (sink : Sink UInt8 S) (isSocketFd : Bool) (fd : Int) (p : S × State × Option Nat)
    (count : Nat) : Option (S × State × Option Nat) :=
  (sysSendfile sink isSocketFd p.1 p.2.1 fd p.2.2 count).map fun sent =>
    (sent.socket, sent.files, sent.offset)

def nextPlace (fd : Int) (p : S × State × Option Nat) : Nat :=
  p.2.2.getD (((p.2.1.file fd).map OpenFile.pos).getD 0)

def Opened (archive : List UInt8) (fd : Int) (f : OpenFile) (p : S × State × Option Nat) : Prop :=
  Within p.2.1 ∧ p.2.1.archive = archive ∧ ∃ pos, p.2.1.file fd = some { f with pos := pos }

theorem resume_takes (opened : Opened archive fd f p)
    (taken : resume sink isSocketFd fd p count = some p') :
    Opened archive fd f p' ∧ ∃ n, n ≤ (contents archive f).length - nextPlace fd p ∧
      nextPlace fd p' = nextPlace fd p + n ∧
      sink.Took p.1 p'.1 (part (contents archive f) (nextPlace fd p) n) := by
  obtain ⟨s, v, offset⟩ := p
  obtain ⟨within_, sameArchive, pos, found⟩ := opened
  subst sameArchive
  obtain ⟨sent, done, delivered⟩ :=
    sysSendfile_delivers sink isSocketFd s within_ fd offset count
  simp only [resume, done, map_some, Option.some.injEq] at taken
  subst taken
  by_cases negative : sent.answer < 0
  · obtain ⟨took, sameFiles, sameOffset⟩ := delivered.failed negative
    simp only [Opened, nextPlace, sameFiles, sameOffset]
    refine ⟨⟨within_, trivial, pos, found⟩, 0, Nat.zero_le _, rfl, ?_⟩
    exact took
  · obtain ⟨g, found', took, amount, _, given_, absent⟩ := delivered.moved (Int.not_lt.mp negative)
    rw [found] at found'
    cases found'
    have start : nextPlace fd (s, v, offset) = place { f with pos := pos } offset := by
      simp [nextPlace, found, place]
    have sameContents : contents v.archive { f with pos := pos } = contents v.archive f := rfl
    rw [sameContents] at took amount
    rw [start]
    generalize sent.answer.toNat = n at *
    have bound : n ≤ (contents v.archive f).length - place { f with pos := pos } offset := by omega
    cases offset with
    | some word =>
      obtain ⟨sameFiles, newOffset⟩ := given_ word rfl
      refine ⟨?_, n, bound, ?_, took⟩
      · simp only [Opened, sameFiles]
        exact ⟨within_, trivial, pos, found⟩
      · simp [nextPlace, newOffset, place]
    | none =>
      obtain ⟨newOffset, newFiles, newFile⟩ := absent rfl
      have inside := file_inside within_ found
      have length : (contents v.archive { f with pos := pos }).length = f.dataLen :=
        contents_length inside
      rw [sameContents] at length
      have ends : pos ≤ f.dataLen := inside.pos
      simp only [place, getD_none] at bound
      refine ⟨⟨?_, ?_, pos + n, newFile⟩, n, bound, ?_, took⟩
      · simp only [newFiles]
        exact setPos_within within_ inside (by simp only; omega)
      · simp [newFiles, (setPos_rest _ _ _).1]
      · simp [nextPlace, newOffset, newFile, place]

/-- In every state the archive files can be in, one call sends the file from its offset on as far
    as the socket takes it, and a caller that goes on where the last call stopped sends one part
    of the file from where it has started. -/
theorem sendfile_delivers_once (archive : List UInt8) (past : List (State × Call)) (v : State)
    (reached : Run step (initial archive) past v) (S : Type) (sink : Sink UInt8 S)
    (isSocketFd : Bool) (fd : Int) (s : S) (offset : Option Nat) :
    (∀ count, ∃ sent, sysSendfile sink isSocketFd s v fd offset count = some sent ∧
      Delivered sink isSocketFd s v fd offset count sent) ∧
    ∀ f calls s' v' offset', v.file fd = some f →
      Run (resume sink isSocketFd fd) (s, v, offset) calls (s', v', offset') →
      ∃ n, n ≤ (contents v.archive f).length - place f offset ∧
        nextPlace fd (s', v', offset') = place f offset + n ∧
        sink.Took s s' (part (contents v.archive f) (place f offset) n) := by
  have within_ := run_within reached
  refine ⟨fun count => sysSendfile_delivers sink isSocketFd s within_ fd offset count, ?_⟩
  intro f calls s' v' offset' found run
  have opened : Opened v.archive fd f (s, v, offset) := ⟨within_, rfl, f.pos, found⟩
  have result := run_takes Prod.fst (nextPlace fd) (fun _ _ => True) (Opened v.archive fd f) opened
    (fun p count p' holds _ taken => resume_takes holds taken) run (fun _ _ => trivial)
  have start : nextPlace fd (s, v, offset) = place f offset := by
    simp [nextPlace, found, place]
  rw [start] at result
  exact result.2

def smallArchive : List UInt8 :=
  Bytes.text "07070100000001000081a400000000000000000000000100000000" ++
    Bytes.text "00000003000000000000000000000000000000000000000200000000a" ++ [0, 1, 2, 3, 0]

theorem sendfile_small_archive : ∃ past v, Run step (initial smallArchive) past v ∧
    v.file 1000 = some ⟨1000, 112, 3, 0⟩ ∧
    ∃ sent, sysSendfile (capped 1 (by decide)) true [] v 1000 (some 1) 5 = some sent ∧
      sent.answer = 1 ∧ sent.socket = [2] ∧
      Delivered (capped 1 (by decide)) true [] v 1000 (some 1) 5 sent := by
  obtain ⟨past, v, run, _, opened⟩ := run_of_exec (fun _ _ => true) step (initial smallArchive)
    [.open_ (Bytes.text "/a")] (fun v => v.file 1000 = some ⟨1000, 112, 3, 0⟩ ∧
      (sysSendfile (capped 1 (by decide)) true [] v 1000 (some 1) 5).any fun sent =>
        sent.answer = 1 ∧ sent.socket = [2]) (by decide +kernel)
  obtain ⟨file, last⟩ := of_decide_eq_true opened
  obtain ⟨sent, done, delivered⟩ :=
    (sendfile_delivers_once smallArchive past v run _ (capped 1 (by decide)) true 1000 []
      (some 1)).1 5
  rw [done] at last
  obtain ⟨answer, socket⟩ := of_decide_eq_true last
  exact ⟨past, v, run, file, sent, done, answer, socket, delivered⟩

end TynKernel.Io
