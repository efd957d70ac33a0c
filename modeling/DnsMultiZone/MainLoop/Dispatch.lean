import DnsMultiZone.MainLoop.Descriptors
import DnsMultiZone.Work.Steps

/-! # The server

`Server` keeps the works of all clients, filed under the client's address (`WorkManager`), and the
connections of all works, filed under their descriptor (`ConnectionManager`). Works are objects that
both refer to, so they are kept in a heap: `WorkManager` maps a key to the address of a work, and
`ConnectionManager` maps a descriptor to the address of a work and the place of the connection there.
A work is freed when `WorkManager` drops it.

`handle` is what one turn of the main loop does for one event, and `step` the same with the kernel.
`OnListenRead` reads several datagrams in a turn; here each is an event of its own. Where the source goes
through a set or map by key, the order here is that of the entries; only the order of effects depends on
it. -/

namespace DnsMultiZone.MainLoop.Dispatch

open DnsMultiZone.Lib.BigEndian DnsMultiZone.Lib.Assoc DnsMultiZone.Lib.Runs
open DnsMultiZone.Config.Address DnsMultiZone.Config.ConfigType
open DnsMultiZone.Work.Connect DnsMultiZone.MainLoop.Descriptors
open DnsMultiZone.Work.Query hiding Event step

/-- The decimal digits of a port. -/
def decimal (n : ℕ) : Bytes := (Nat.toDigits 10 n).map fun c => UInt8.ofNat c.toNat

/-- `Util::AddrToString`: "ip:port", "[ip]:port", or "-" for another family. -/
def addrToString (inet : Inet) : SockAddr → Bytes
  | .unspec _ => [0x2D]
  | .inet addr port => inet.ntop4 addr ++ [0x3A] ++ decimal port
  | .inet6 addr port _ => [0x5B] ++ inet.ntop6 addr ++ [0x5D, 0x3A] ++ decimal port

/-! ### State -/

/-- The address of a work. -/
abbrev WorkPtr := ℕ

/-- A `DNSConnect`: the work that has it, and its place there. -/
structure ConnPtr where
  work : WorkPtr
  nIndex : ℕ
  deriving DecidableEq

/-- `Server`, with its two managers. -/
structure Server where
  fdListen : Fd
  lsSendQueue : List (ReplyAddr × Bytes) := []
  spConnectionManager : Map Fd ConnPtr := ∅
  spWorkManager : Map Bytes WorkPtr := ∅
  ssIdle : List Bytes := []
  heap : Map WorkPtr DNSQureyWork := ∅
  nextPtr : WorkPtr := 0

/-- `MapManager::SaveItem`: a key that is there is not saved again. -/
def saveItem {α β : Type} [DecidableEq α] (kyKey : α) (itItem : β) (m : Map α β) : Option (Map α β) :=
  if kyKey ∈ m then none else some (m.insert kyKey itItem)

/-! ### Answers -/

/-- `UpdateListenEvents`. -/
def Server.updateListenEvents (s : Server) : List Effect :=
  [.epollMod s.fdListen (s.lsSendQueue ≠ [])]

/-- `SendTo`. -/
def Server.sendTo (o : SendOutcome) (raAddr : ReplyAddr) (sData : Bytes) (s : Server) :
    Server × List Effect :=
  if s.lsSendQueue = [] ∧ o = .sent then (s, [.sendReply raAddr sData])
  else if s.lsSendQueue = [] ∧ o = .failed then (s, [])
  else
    let s := { s with lsSendQueue := s.lsSendQueue ++ [(raAddr, sData)] }
    (s, s.updateListenEvents)

/-- `OnListenWrite`. -/
def Server.onListenWrite (o : ℕ → SendOutcome) (s : Server) : Server × List Effect :=
  let r := DNSConnect.writeLoop o 0 s.lsSendQueue
  let s := { s with lsSendQueue := r.2 }
  (s, r.1.map (fun d => .sendReply d.1 d.2) ++ s.updateListenEvents)

/-! ### Events of works -/

/-- What a call of a work does. -/
def Server.perform (o : SendOutcome) (s : Server) : Call → Server × List Effect
  | .send fd sBuffer => (s, [.send fd sBuffer])
  | .mod fd pollOut => (s, [.epollMod fd pollOut])
  | .del fd => (s, [.epollDel fd])
  | .sendTo ra sData => s.sendTo o ra sData
  | .workClose sKey => ({ s with ssIdle := s.ssIdle.insert sKey }, [])

def Server.performAll (o : SendOutcome) : List Call → Server → Server × List Effect
  | [], s => (s, [])
  | c :: cs, s =>
    let r := performAll o cs (s.perform o c).1
    (r.1, (s.perform o c).2 ++ r.2)

/-- An event of the work at `p`; `o` is what the kernel makes of an answer to the client. -/
def Server.workEvent (zones : Zones) (o : SendOutcome) (p : WorkPtr) (e : Work.Query.Event)
    (s : Server) : Server × List Effect :=
  match s.heap.lookup p with
  | none => (s, [])
  | some w =>
    let r := Work.Query.step zones e w
    { s with heap := s.heap.insert p r.1 }.performAll o r.2

/-- An event on a descriptor of an upstream. One that `ConnectionManager` does not know is not listened
to any more. -/
def Server.session (zones : Zones) (o : SendOutcome) (fd : Fd) (e : ℕ → Work.Query.Event) (s : Server) :
    Server × List Effect :=
  match s.spConnectionManager.lookup fd with
  | none => (s, [.epollDel fd])
  | some c => s.workEvent zones o c.work (e c.nIndex)

/-! ### New works -/

/-- What comes of a zone when a work is set up: no address or no socket, a socket that does not connect
and is closed again, or a connected one. -/
inductive ConnectOutcome
  | unavailable
  | refused (fd : Fd)
  | connected (fd : Fd)

/-- What `DNSQureyWork::Init` leaves. -/
structure Inited where
  spConnectionManager : Map Fd ConnPtr
  vsDNSConnects : List DNSConnect
  effects : List Effect
  ok : Bool

def Inited.cons (c : DNSConnect) (es : List Effect) (r : Inited) : Inited :=
  { r with vsDNSConnects := c :: r.vsDNSConnects, effects := es ++ r.effects }

/-- The loop of `DNSQureyWork::Init` from zone `i` on. A descriptor that cannot be saved stays open. -/
def initLoop (p : WorkPtr) (conn : ℕ → ConnectOutcome) :
    List ZoneInfo → ℕ → Map Fd ConnPtr → Inited
  | [], _, m => ⟨m, [], [], true⟩
  | _ :: zs, i, m =>
    match conn i with
    | .unavailable => (initLoop p conn zs (i + 1) m).cons ⟨i, none, []⟩ []
    | .refused fd => (initLoop p conn zs (i + 1) m).cons ⟨i, none, []⟩ [.socket fd, .close fd]
    | .connected fd =>
      match saveItem fd ⟨p, i⟩ m with
      | none => ⟨m, [], [.socket fd, .epollAdd fd], false⟩
      | some m => (initLoop p conn zs (i + 1) m).cons ⟨i, some fd, []⟩ [.socket fd, .epollAdd fd]

/-- `DNSQureyWork::Exit` with the `Exit` of each connection. The work is freed after it, so that its
connections have no socket any more is not kept. -/
def exitConns : List DNSConnect → Map Fd ConnPtr → Map Fd ConnPtr × List Effect
  | [], m => (m, [])
  | c :: cs, m =>
    match c.fdSock with
    | none => exitConns cs m
    | some fd =>
      let r := exitConns cs (m.erase fd)
      (r.1, .epollDel fd :: .close fd :: r.2)

/-- What `recvmsg` returns on the listening socket. -/
structure Received where
  addrClient : SockAddr
  pktInfo : Option PktInfo
  sBuffer : Bytes

/-- `IN6_IS_ADDR_V4MAPPED`. -/
def isV4Mapped (addr : IPv6Addr) : Bool := addr.cAddr.take 12 = List.replicate 10 0 ++ [0xFF, 0xFF]

/-- `GetLocalAddr`. -/
def Received.localAddr (r : Received) : Option PktInfo :=
  match r.addrClient with
  | .inet6 addr _ _ => if isV4Mapped addr then none else r.pktInfo
  | _ => none

/-- What the configuration and the C library give. -/
structure Setup where
  zones : Zones
  inet : Inet

/-- One datagram of `OnListenRead`, for the work of its client, which is set up if there is none. -/
def Server.onListenRead (g : Setup) (r : Received) (now : ℕ) (conn : ℕ → ConnectOutcome)
    (outs : ℕ → SendOutcome) (s : Server) : Server × List Effect :=
  if r.sBuffer = [] then (s, [])
  else
    let sKey := addrToString g.inet r.addrClient
    -- A client's datagram is not answered at once, so there is no outcome of an answer.
    let onRecvData (p : WorkPtr) := Server.workEvent g.zones .sent p (.recv r.localAddr r.sBuffer now outs)
    match s.spWorkManager.lookup sKey with
    | some p => onRecvData p s
    | none =>
      let p := s.nextPtr
      let i := initLoop p conn g.zones 0 s.spConnectionManager
      let w : DNSQureyWork :=
        { raReply := { ssClient := r.addrClient }, vsDNSConnects := i.vsDNSConnects, sKey }
      match if i.ok then saveItem sKey p s.spWorkManager else none with
      | some works =>
        let s := { s with
          spConnectionManager := i.spConnectionManager, spWorkManager := works,
          heap := s.heap.insert p w, nextPtr := p + 1 }
        ((onRecvData p s).1, i.effects ++ (onRecvData p s).2)
      | none =>
        let x := exitConns w.vsDNSConnects i.spConnectionManager
        ({ s with spConnectionManager := x.1, nextPtr := p + 1 }, i.effects ++ .initFailed sKey :: x.2)

/-! ### Closing works -/

/-- The work filed under a key is closed if `f` says so. -/
def Server.closeIf (f : DNSQureyWork → Bool) (sKey : Bytes) (s : Server) : Server × List Effect :=
  match s.spWorkManager.lookup sKey with
  | none => (s, [])
  | some p =>
    match s.heap.lookup p with
    | none => (s, [])
    | some w =>
      if f w then
        let x := exitConns w.vsDNSConnects s.spConnectionManager
        ({ s with
          spConnectionManager := x.1, spWorkManager := s.spWorkManager.erase sKey,
          heap := s.heap.erase p }, x.2)
      else (s, [])

def Server.closeEach (f : DNSQureyWork → Bool) : List Bytes → Server → Server × List Effect
  | [], s => (s, [])
  | sKey :: keys, s =>
    let r := closeEach f keys (s.closeIf f sKey).1
    (r.1, (s.closeIf f sKey).2 ++ r.2)

/-- `CloseIdle`. -/
def Server.closeIdle (s : Server) : Server × List Effect :=
  let r := s.closeEach (·.isIdle) s.ssIdle
  ({ r.1 with ssIdle := [] }, r.2)

/-- The time since the last datagram is over `DEF_TIME_OUT`; the times are `unsigned long long`. -/
def timedOut (llNow : ℕ) (w : DNSQureyWork) : Bool := (llNow + 2 ^ 64 - w.llLastTouch) % 2 ^ 64 > 10000

/-- `ClearTimeout`. -/
def Server.clearTimeout (llNow : ℕ) (s : Server) : Server × List Effect :=
  s.closeEach (timedOut llNow) s.spWorkManager.keys

/-- `ExitAndClear`. -/
def Server.exitAndClear (s : Server) : Server × List Effect :=
  let r := s.closeEach (fun _ => true) s.spWorkManager.keys
  ({ r.1 with spWorkManager := ∅ }, r.2)

/-! ### The main loop -/

/-- An event of the main loop: one datagram of a client, with the time, what comes of each zone's
connection if a work is set up, and what the kernel makes of each send; room on the listening socket; an
error, a datagram or room on a descriptor of an upstream; and the calls at the end of a turn and of the
loop. -/
inductive Event
  | listenRead (r : Received) (now : ℕ) (conn : ℕ → ConnectOutcome) (outs : ℕ → SendOutcome)
  | listenWrite (outs : ℕ → SendOutcome)
  | upstreamError (fd : Fd)
  | upstreamRead (fd : Fd) (sDNSData : Bytes) (o : SendOutcome)
  | upstreamWrite (fd : Fd) (outs : ℕ → SendOutcome)
  | closeIdle
  | clearTimeout (llNow : ℕ)
  | exitAndClear

/-- One event. -/
def handle (g : Setup) (s : Server) : Event → Server × List Effect
  | .listenRead r now conn outs => s.onListenRead g r now conn outs
  | .listenWrite outs => s.onListenWrite outs
  | .upstreamError fd => s.session g.zones .sent fd .disconnect
  | .upstreamRead fd sDNSData o => s.session g.zones o fd (.read · sDNSData)
  | .upstreamWrite fd outs => s.session g.zones .sent fd (.write · outs)
  | .closeIdle => s.closeIdle
  | .clearTimeout llNow => s.clearTimeout llNow
  | .exitAndClear => s.exitAndClear

/-- The server and the kernel. -/
structure Sys where
  server : Server
  kernel : Kernel

/-- **One event**, with what it does to the kernel. -/
def step (g : Setup) (e : Event) (s : Sys) : Sys × List Effect :=
  (⟨(handle g s.server e).1, s.kernel.run (handle g s.server e).2⟩, (handle g s.server e).2)

/-- The kernel hands out no open descriptor in the step. -/
def LawfulStep (g : Setup) (s : Sys) (e : Event) : Prop := Lawful s.kernel (handle g s.server e).2

instance (g : Setup) (s : Sys) (e : Event) : Decidable (LawfulStep g s e) := by
  unfold LawfulStep; infer_instance

/-- The server when its main loop starts. -/
def Sys.start (fdListen : Fd) (kernel : Kernel) : Sys := ⟨{ fdListen }, kernel⟩

/-- The effects of a run, in order. -/
def effects : List (Entry Sys Event (List Effect)) → List Effect
  | [] => []
  | x :: tr => effects tr ++ x.out

end DnsMultiZone.MainLoop.Dispatch
