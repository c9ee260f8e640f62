import TynKernel.Lib.Numbers

/-!
The table of sockets and the list of numbers that closed sockets have given back. What the
network stack does is a choice of the environment.
-/
namespace TynKernel.Sockets
open List Numbers

def sockFdBase : Int := 500

inductive SockType where
  | tcpStream | tcpListener | udpDgram
  deriving DecidableEq, Repr

structure Socket where
  fd : Int
  sockType : SockType
  nonblock : Bool
  deriving DecidableEq, Repr

structure Table (S : Type) where
  initialized : Bool
  sockets : List S
  nextSockFd : Int
  recycledFds : List Int
  deriving DecidableEq, Repr

namespace Table

def empty (initialized : Bool) : Table S := ⟨initialized, [], sockFdBase, []⟩

def allocFd (t : Table S) : Table S × Int :=
  match t.recycledFds with
  | fd :: rest => ({ t with recycledFds := rest }, fd)
  | [] => ({ t with nextSockFd := asI32 (t.nextSockFd + 1) }, t.nextSockFd)

def add (t : Table S) (entry : Int → S) : Table S × Int :=
  ({ t.allocFd.1 with sockets := t.sockets ++ [entry t.allocFd.2] }, t.allocFd.2)

def recycle (t : Table S) (fd : Int) (others : List S) : Table S :=
  { t with sockets := others, recycledFds := fd :: t.recycledFds }

/-- The tests of sys_socket: an error, or the type of the socket and whether it blocks. -/
def socketRequest (t : Table S) (domain : Int) (sockType : Nat) : Except Int (SockType × Bool) :=
  if domain ≠ 2 ∧ domain ≠ 10 then .error (-97)
  else
    let rawType := sockType &&& 0xf
    let nonblock : Bool := sockType &&& 0x800 ≠ 0
    if rawType ≠ 1 ∧ rawType ≠ 2 then .error (-93)
    else if !t.initialized then .error (-97)
    else .ok (if rawType = 1 then .tcpStream else .udpDgram, nonblock)

theorem socketRequest_error {t : Table S} (refused : t.socketRequest domain sockType = .error code) :
    code < 0 := by
  unfold socketRequest at refused
  split at refused
  · cases refused
    decide
  dsimp only at refused
  split at refused
  · cases refused
    decide
  · split at refused <;> cases refused
    decide

end Table

abbrev State := Table Socket

def initial (initialized : Bool) : State := .empty initialized

namespace State

def isSocketFd (s : State) (fd : Int) : Bool := s.sockets.any fun sock => sock.fd = fd

def push (s : State) (sockType : SockType) (nonblock : Bool) : State × Int :=
  s.add fun fd => ⟨fd, sockType, nonblock⟩

def sysSocket (s : State) (domain : Int) (sockType : Nat) : State × Int :=
  match s.socketRequest domain sockType with
  | .error code => (s, code)
  | .ok (st, nonblock) => s.push st nonblock

def socket (s : State) (fd : Int) : Option Socket := s.sockets.find? fun sock => sock.fd = fd

/-- listen makes the socket a listener before it tries the endpoint. On a datagram socket the
    network stack stops the kernel. -/
def sysListen (s : State) (fd : Int) (listens : Bool) : Option (State × Int) :=
  match s.socket fd with
  | none => some (s, -9)
  | some sock =>
    if sock.sockType = .udpDgram then none
    else
      some ({ s with
        sockets := s.sockets.map fun other =>
          if other.fd = fd then { other with sockType := .tcpListener } else other },
        if listens then 0 else -98)

/-- accept, when the pool of the listener has a connection or has none. Without one a blocking
    call does not return. -/
def sysAccept (s : State) (fd : Int) (flags : Nat) (established : Bool) : Option (State × Int) :=
  match s.socket fd with
  | none => some (s, -9)
  | some sock =>
    if sock.sockType ≠ .tcpListener then some (s, -95)
    else if established then some (s.push .tcpStream (flags &&& 0x800 ≠ 0))
    else if sock.nonblock || flags &&& 0x800 ≠ 0 then some (s, -11)
    else none

def close (s : State) (fd : Int) : State :=
  if s.isSocketFd fd then s.recycle fd (s.sockets.eraseP fun sock => sock.fd = fd) else s

def setNonblock (s : State) (fd : Int) (nonblock : Bool) : State :=
  match s.sockets.findIdx? fun sock => sock.fd = fd with
  | some i => { s with sockets := s.sockets.modify i fun sock => { sock with nonblock := nonblock } }
  | none => s

def descriptors (s : State) : List (Int × Unit) := s.sockets.map fun sock => (sock.fd, ())

end State

structure Numbered (s : State) : Prop where
  issued : Issued sockFdBase s.nextSockFd (keys s.descriptors ++ s.recycledFds)
  started : sockFdBase ≤ s.nextSockFd

variable {s : State} {code : Int}

theorem numbered_initial (initialized : Bool) : Numbered (initial initialized) :=
  ⟨issued_nil .., Int.le_refl _⟩

theorem descriptors_issued (numbered : Numbered s) :
    Issued sockFdBase s.nextSockFd (keys s.descriptors) :=
  issued_sublist numbered.issued (sublist_append_left _ _)

theorem isSocketFd_iff : s.isSocketFd fd = true ↔ fd ∈ keys s.descriptors := by
  simp [State.isSocketFd, State.descriptors, Numbers.keys]

structure Opened (s : State) (result : State × Int) : Prop where
  numbered : Numbered result.1
  bound : result.1.nextSockFd ≤ 900
  added : Added s.descriptors () result.2 result.1.descriptors

section
variable (numbered : Numbered s) (bound : s.nextSockFd ≤ 900)
include numbered bound

theorem opened_refused (error : code < 0) :
    Opened s (s, code) := ⟨numbered, bound, .refused error rfl⟩

theorem push_opened
    (room : s.recycledFds = [] → s.nextSockFd < 900) : Opened s (s.push sockType nonblock) := by
  have started := numbered.started
  rw [sockFdBase] at started
  unfold State.push Table.add Table.allocFd
  cases free : s.recycledFds with
  | cons fd rest =>
    have issued := numbered.issued
    rw [free] at issued
    have low := issued.low fd (by simp)
    rw [sockFdBase] at low
    have added : (State.descriptors { s with
        recycledFds := rest, sockets := s.sockets ++ [⟨fd, sockType, nonblock⟩] }).Perm
        ((fd, ()) :: s.descriptors) := by
      simp only [State.descriptors, map_append, map_singleton]
      exact perm_append_comm
    refine ⟨⟨?_, numbered.started⟩, bound, .put (by simp only; omega) added⟩
    refine issued_perm issued ?_
    have keysPerm : (Numbers.keys _).Perm (fd :: keys s.descriptors) := added.map Prod.fst
    exact (keysPerm.append_right rest).trans perm_middle.symm
  | nil =>
    have less := room free
    have counter : asI32 (s.nextSockFd + 1) = s.nextSockFd + 1 :=
      asI32_of_lt (by omega) (by omega)
    have issued := numbered.issued
    rw [free, append_nil] at issued
    have added : (State.descriptors { s with
        nextSockFd := asI32 (s.nextSockFd + 1)
        sockets := s.sockets ++ [⟨s.nextSockFd, sockType, nonblock⟩] }).Perm
        ((s.nextSockFd, ()) :: s.descriptors) := by
      simp only [State.descriptors, map_append, map_singleton]
      exact perm_append_comm
    refine ⟨⟨?_, ?_⟩, ?_, .put (by simp only; omega) added⟩
    · simp only [append_nil, counter]
      exact issued_perm (issued_next issued numbered.started) (added.map Prod.fst)
    · simp only [counter, sockFdBase]
      omega
    · simp only [counter]
      omega

theorem sysSocket_opened
    (room : s.recycledFds = [] → s.nextSockFd < 900) : Opened s (s.sysSocket domain sockType) := by
  unfold State.sysSocket
  split
  · rename_i refused
    exact opened_refused numbered bound (Table.socketRequest_error refused)
  · exact push_opened numbered bound room

theorem sysAccept_opened (room : s.recycledFds = [] → s.nextSockFd < 900)
    (done : s.sysAccept fd flags established = some result) : Opened s result := by
  unfold State.sysAccept at done
  split at done
  · cases done
    exact opened_refused numbered bound (by decide)
  split at done
  · cases done
    exact opened_refused numbered bound (by decide)
  split at done
  · cases done
    exact push_opened numbered bound room
  · split at done
    · cases done
      exact opened_refused numbered bound (by decide)
    · cases done

end

theorem sysListen_same (done : s.sysListen fd listens = some (s', code)) :
    s'.descriptors = s.descriptors ∧ s'.nextSockFd = s.nextSockFd ∧
      s'.recycledFds = s.recycledFds ∧ code ≤ 0 := by
  unfold State.sysListen at done
  split at done
  · cases done
    exact ⟨rfl, rfl, rfl, by decide⟩
  split at done
  · cases done
  obtain ⟨rfl, rfl⟩ := Prod.mk.inj (Option.some.inj done)
  refine ⟨?_, rfl, rfl, by split <;> decide⟩
  simp only [State.descriptors, map_map]
  apply map_congr_left
  intro sock _
  simp only [Function.comp]
  split <;> rfl

theorem close_taken (s : State) (fd : Int) : Taken s.descriptors fd (s.close fd).descriptors := by
  unfold State.close
  split
  · exact taken_eraseP s.sockets Socket.fd (fun _ => ()) fd
  · rename_i absent
    exact .absent (fun member => absent (isSocketFd_iff.mpr member)) (.refl _)

theorem close_numbered (numbered : Numbered s) (fd : Int) :
    Numbered (s.close fd) ∧ (s.close fd).nextSockFd = s.nextSockFd := by
  have taken := close_taken s fd
  by_cases present : s.isSocketFd fd = true
  · have closed : s.close fd = s.recycle fd (s.sockets.eraseP fun sock => sock.fd = fd) :=
      if_pos present
    refine ⟨⟨?_, ?_⟩, ?_⟩
    · cases taken with
      | took o perm =>
        have keysPerm : (keys s.descriptors).Perm (fd :: keys (s.close fd).descriptors) :=
          perm.map Prod.fst
        have recycled : (s.close fd).recycledFds = fd :: s.recycledFds := by rw [closed]; rfl
        have next : (s.close fd).nextSockFd = s.nextSockFd := by rw [closed]; rfl
        rw [recycled, next]
        refine issued_perm numbered.issued ?_
        exact perm_middle.trans (keysPerm.symm.append_right _)
      | absent none => exact absurd (isSocketFd_iff.mp present) none
    · rw [closed]
      exact numbered.started
    · rw [closed]
      rfl
  · have same : s.close fd = s := if_neg present
    rw [same]
    exact ⟨numbered, rfl⟩

end TynKernel.Sockets
