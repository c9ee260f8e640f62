import TynKernel.Io.Sendfile
import TynKernel.Io.Writev
import TynKernel.Net.Receive
import TynKernel.Vfs.Descriptors

/-!
A connection as a sink. What holds of sys_sendfile and of sys_writev with any sink holds of
them on a stream socket.
-/
namespace TynKernel.Io
open Net Numbers Runs Streams

section
variable [Stack]

/-- A state of the network in which the number names a stream socket. The room in its send buffer
    is a word. -/
structure Sender (fd : Int) where
  state : Net.State
  sock : Socket
  tcp : Tcp
  conn : Conn state fd sock tcp
  small : tcp.txFree < 2 ^ 63

def afterSend (t : Tcp) (data : List UInt8) : Tcp :=
  if t.canSend then ((t.sendSlice data).map Prod.fst).getD t else t

def sendCode (t : Tcp) (data : List UInt8) : Int :=
  if t.canSend then (min data.length t.txFree : Nat) else -11

variable {s : Net.State} {fd : Int} {t : Tcp}

theorem afterSend_spec (open_ : t.canSend = true) (data : List UInt8) :
    t.sendSlice data = some (afterSend t data, min data.length t.txFree) ∧
      (afterSend t data).state = t.state ∧
      (afterSend t data).sent = t.sent ++ data.take (min data.length t.txFree) ∧
      (afterSend t data).txFree = t.txFree - min data.length t.txFree := by
  obtain ⟨t', sent, kept⟩ := Stack.sendSlice_spec t data open_
  have same : afterSend t data = t' := by
    rw [afterSend, if_pos open_, sent]
    rfl
  rw [same]
  exact ⟨sent, kept⟩

theorem afterSend_shut (shut : ¬ t.canSend = true) (data : List UInt8) : afterSend t data = t :=
  if_neg shut

theorem conn_sendto (conn : Conn s fd sock t) (data : List UInt8) (room : Bool) :
    ∃ s', s.call (.sendto fd data none room) = some (s', .code (sendCode t data)) ∧
      Conn s' fd sock (afterSend t data) := by
  have call : s.call (.sendto fd data none room) =
      s.withSocket fd (.code (-9)) (Socket.sendto data none room) := rfl
  have account : ∀ s' r, s.withSocket fd (.code (-9)) (Socket.sendto data none room) =
      some (s', r) → ∃ leaked, Accounted s' leaked :=
    fun s' r done => call_keeps_account conn.accounted (call.trans done)
  unfold sendCode
  split
  · rename_i open_
    have done : Socket.sendto data none room s.net sock =
        some (s.net.put sock.handle (.tcp (afterSend t data)), sock,
          .code (min data.length t.txFree : Nat)) := by
      simp [Socket.sendto, conn.stream, conn.tcp, open_, (afterSend_spec open_ data).1]
    refine conn_withSocket conn done ?_ rfl conn.stream (account · _)
    rw [tcp_put, if_pos rfl]
  · rename_i shut
    rw [afterSend_shut shut]
    refine conn_withSocket conn ?_ conn.tcp rfl conn.stream (account · _)
    simp [Socket.sendto, conn.stream, conn.tcp, shut]

def sentState (s : Net.State) (fd : Int) (data : List UInt8) : Net.State :=
  ((s.call (.sendto fd data none true)).map Prod.fst).getD s

theorem sentState_conn (conn : Conn s fd sock t) (data : List UInt8) :
    Conn (sentState s fd data) fd sock (afterSend t data) := by
  obtain ⟨s', done, next⟩ := conn_sendto conn data true
  rw [sentState, done]
  exact next

theorem afterSend_small (small : t.txFree < 2 ^ 63) (data : List UInt8) :
    (afterSend t data).txFree < 2 ^ 63 := by
  by_cases open_ : t.canSend = true
  · rw [(afterSend_spec open_ data).2.2.2]
    omega
  · rw [afterSend_shut open_]
    exact small

def socketSink (fd : Int) : Sink UInt8 (Sender fd) where
  write p data :=
    (⟨sentState p.state fd data, p.sock, afterSend p.tcp data, sentState_conn p.conn data,
      afterSend_small p.small data⟩, sendCode p.tcp data)
  stream p := p.tcp.sent
  took p data taken := by
    simp only [sendCode] at taken ⊢
    split
    · rename_i open_
      rw [(afterSend_spec open_ data).2.2.1, Int.toNat_natCast]
      exact ⟨Nat.min_le_left _ _, rfl⟩
    · rename_i shut
      rw [if_neg shut] at taken
      cases taken
  refused p data error := by
    simp only [sendCode] at error ⊢
    split at error
    · omega
    · rename_i shut
      rw [afterSend_shut shut]
  word p data := by
    have small := p.small
    simp only [sendCode]
    split
    · omega
    · decide

theorem socketSink_shut (shut : p.tcp.canSend = false) (data : List UInt8) :
    ((socketSink fd).write p data).2 = -11 := by
  change sendCode p.tcp data = -11
  rw [sendCode, shut]
  rfl

theorem socketSink_fills (fd : Int) :
    Fills (socketSink fd) (fun p => p.tcp.txFree) (fun p => p.tcp.canSend = true) := by
  have sent : ∀ (p : Sender fd) (data : List UInt8),
      ((socketSink fd).write p data).1.tcp = afterSend p.tcp data := fun _ _ => rfl
  constructor
  · intro p data open_
    change sendCode p.tcp data = _
    rw [sendCode, if_pos open_]
  · intro p data open_ fits
    have all : min data.length p.tcp.txFree = data.length := Nat.min_eq_left (Nat.le_of_lt fits)
    obtain ⟨_, state, _, free⟩ := afterSend_spec open_ data
    rw [sent, Stack.canSend_iff, state, free, all]
    exact ⟨⟨((Stack.canSend_iff _).mp open_).1, Nat.sub_pos_of_lt fits⟩, rfl⟩
  · intro p data more open_ full
    have shut : ((socketSink fd).write p data).1.tcp.canSend = false := by
      rw [sent, ← Bool.not_eq_true, Stack.canSend_iff, (afterSend_spec open_ data).2.2.2]
      omega
    rw [socketSink_shut shut]
    decide

theorem socketSink_calls (fd : Int) (p : Sender fd) (data : List UInt8) :
    p.state.call (.sendto fd data none true) =
      some (((socketSink fd).write p data).1.state, .code ((socketSink fd).write p data).2) := by
  obtain ⟨s', done, _⟩ := conn_sendto p.conn data true
  have state : ((socketSink fd).write p data).1.state = s' := by
    show sentState p.state fd data = s'
    rw [sentState, done]
    rfl
  rw [done, state]
  rfl

section Archived
open Vfs
variable {before after : List Record} {r trailer : Record} {path : Path} {v : Vfs.State}

omit [Stack] in
theorem archived_contents (files : ∀ x ∈ before ++ r :: after, Proper x.name)
    (last : IsTrailer trailer) (first : ∀ b ∈ before, b.name ≠ r.name)
    (spelled : Spelled r.name path)
    (image : v.archive = archive (before ++ r :: after) trailer tail) :
    ∃ start, cpioLookup v.archive path = some (some (start, r.contents.length)) ∧
      part v.archive start r.contents.length = r.contents := by
  have proper := files r (List.mem_append_right _ List.mem_cons_self)
  have target := normalized_spelled proper.relative proper.undotted spelled
  obtain ⟨back, whole⟩ := archive_contents before r after trailer tail
  refine ⟨(layout 0 before ++ r.front (layout 0 before).length).length, ?_, ?_⟩
  · rw [image, archive_lookup last (fun x member => (files x member).file),
      lookup_first (target.symm ▸ first) target.symm, Nat.zero_add, List.length_append]
  · rw [image, whole, part, List.drop_left, List.take_left]

theorem sendfile_fills {out : Int} (p : Sender out) (within_ : Within v)
    (found : v.file fd = some f) (open_ : p.tcp.canSend = true) (offset : Option Nat)
    (count : Nat) :
    ∃ sent, sysSendfile (socketSink out) true p v fd offset count = some sent ∧
      sent.answer = (min (min count (f.dataLen - place f offset)) p.tcp.txFree : Nat) := by
  have inside := file_inside within_ found
  have fileLength := inside.length
  obtain ⟨s', n, size, loop⟩ := sendfileFrom_fills within_ found (socketSink_fills out)
    (count + 1) open_ (place f offset) 0 count (Nat.lt_succ_self _)
  rw [sysSendfile_open _ p within_ found, loop, ← size, Nat.zero_add]
  have word : asI64 n = n := asI64_nat (by omega)
  cases offset with
  | some | none =>
    simp only [finish, word]
    exact ⟨_, rfl, rfl⟩

/-- From the archive to the peer, in every state of the files: open gives the first file with the
    name a number that was not in use, and sendfile gives a connection that can send the bytes of
    that file from the offset on, as many as were asked for, are left and have room. It asks to
    try again if the connection cannot send and there is something to send. -/
theorem archived_file_reaches_peer (before after : List Record) (tail : List UInt8)
    (files : ∀ x ∈ before ++ r :: after, Proper x.name) (last : IsTrailer trailer)
    (first : ∀ b ∈ before, b.name ≠ r.name) (spelled : Spelled r.name path)
    (reached : Run Vfs.step (initial (archive (before ++ r :: after) trailer tail)) past v)
    (room : v.hasRoom = true) (fresh : v.file (asI32 v.nextVfsFd) = none) {out : Int}
    (p : Sender out) (offset : Option Nat) (count : Nat) :
    ∃ v' fd sent, v.open_ path = some (v', fd) ∧
      sysSendfile (socketSink out) true p v' fd offset count = some sent ∧
      let wanted := min count (r.contents.length - offset.getD 0)
      if p.tcp.canSend then
        sent.answer = (min wanted p.tcp.txFree : Nat) ∧ sent.socket.tcp.sent =
          p.tcp.sent ++ part r.contents (offset.getD 0) (min wanted p.tcp.txFree)
      else sent.answer = (if wanted = 0 then 0 else -11) ∧
        sent.socket.tcp.sent = p.tcp.sent := by
  obtain ⟨start, found, whole⟩ :=
    archived_contents files last first spelled (run_archive reached).2
  cases installed : v.install start r.contents.length 0 with
  | mk v' fd =>
  have opened := (open_found found).1.trans (congrArg some installed)
  obtain ⟨⟨_, added⟩, _⟩ := install_adds room fresh installed
  have taken : Vfs.step v (.open_ path) = some v' := by rw [Vfs.step, opened]; rfl
  obtain ⟨within_, image⟩ := run_archive (.snoc reached taken)
  rw [← (run_archive reached).2] at image
  obtain ⟨sent, done, delivered⟩ :=
    sysSendfile_delivers (socketSink out) true p within_ fd offset count
  have here : v'.file fd = some ⟨fd, start, r.contents.length, 0⟩ := by
    rw [added, Function.update_self]
  have contents' : contents v'.archive ⟨fd, start, r.contents.length, 0⟩ = r.contents := by
    rw [contents, image, whole]
  refine ⟨v', fd, sent, opened, done, ?_⟩
  extract_lets wanted
  split
  · rename_i open_
    obtain ⟨_, same, answer⟩ := sendfile_fills p within_ here open_ offset count
    cases done.symm.trans same
    obtain ⟨f, again, took, _⟩ := delivered.moved (by omega)
    cases here.symm.trans again
    rw [contents', answer, Int.toNat_natCast] at took
    exact ⟨answer, took⟩
  · rename_i shut
    have opening := firstAnswer_open here (socketSink out) p offset count
    have length : (part r.contents (offset.getD 0) (min count 4096)).length =
        min (min count 4096) (r.contents.length - offset.getD 0) := by
      rw [part, List.length_take, List.length_drop]
    have begins : place ⟨fd, start, r.contents.length, 0⟩ offset = offset.getD 0 := rfl
    rw [contents', begins, socketSink_shut (Bool.not_eq_true _ ▸ shut)] at opening
    simp only [← List.length_eq_zero_iff, chunk, length] at opening
    by_cases none_ : wanted = 0
    · rw [if_pos none_]
      rw [if_pos (by omega)] at opening
      obtain ⟨f, again, took, counted, _⟩ :=
        delivered.moved (delivered.accepted (Int.le_of_eq opening.symm))
      cases here.symm.trans again
      have zero : sent.answer.toNat = 0 := by
        rw [contents', begins] at counted
        omega
      rw [contents', zero, part_zero] at took
      have valid := delivered.accepted (Int.le_of_eq opening.symm)
      exact ⟨by omega, took.trans (List.append_nil _)⟩
    · rw [if_neg none_]
      rw [if_neg (by omega)] at opening
      have error := delivered.refused (by omega)
      rw [opening] at error
      exact ⟨error, (delivered.failed (by omega)).1.trans (List.append_nil _)⟩

end Archived

end

theorem second_file_reaches_peer : ∃ p : Sender 500, ∃ v' fd sent,
    (Vfs.initial (Vfs.archive Vfs.twoFiles Vfs.plainTrailer [])).open_ (Bytes.text "/c") =
      some (v', fd) ∧ sysSendfile (socketSink 500) true p v' fd none 5 = some sent ∧
      sent.answer = 1 ∧ sent.socket.tcp.sent = p.tcp.sent ++ [7] := by
  obtain ⟨past, s, run, _, test⟩ := run_of_exec (fun _ _ => true) step (Net.initial .fixed)
    clientSteps (fun s => s.connAt 500 fun sock t =>
      sock.sockType = .tcpStream ∧ t.state = .established ∧ t.txFree = 8192) (by decide)
  obtain ⟨sock, t, found, got, holds⟩ := connAt_spec test
  obtain ⟨stream, established, room⟩ := of_decide_eq_true holds
  let p : Sender 500 := ⟨s, sock, t, ⟨⟨_, run_accounted run⟩, found, got, stream⟩, by omega⟩
  have open_ : p.tcp.canSend = true := (Stack.canSend_iff t).mpr ⟨.inl established, by omega⟩
  have free : p.tcp.txFree = 8192 := room
  obtain ⟨v', fd, sent, opened, done, moved⟩ := archived_file_reaches_peer
    [.plain (Bytes.text "a/b") (Bytes.text "070701") (by decide) (by decide)] [] []
    Vfs.twoFiles_proper Vfs.plainTrailer_last (by decide) (.inr (.inl rfl)) .nil (by decide)
    (by decide) p none 5
  rw [if_pos open_, free] at moved
  exact ⟨p, v', fd, sent, opened, done, moved⟩

end TynKernel.Io
