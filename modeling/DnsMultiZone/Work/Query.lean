import DnsMultiZone.Config.ConfigType
import DnsMultiZone.Lib.Assoc
import DnsMultiZone.Lib.Runs
import DnsMultiZone.Rfc1035.Drop
import DnsMultiZone.Work.Connect

/-! # Works

`DNSQureyWork` is one client: its connections, one for each zone, and its pending queries by ID. A
pending query has one item for each zone, and a cursor, the place of the first zone the scan of
`DNSQueryResult` has not passed. `step` handles one event of the main loop; the functions it calls
have the source's names. -/

namespace DnsMultiZone.Work.Query

open DnsMultiZone.Lib.BigEndian DnsMultiZone.Lib.Assoc
open DnsMultiZone.Config.Address DnsMultiZone.Config.ConfigType
open DnsMultiZone.Rfc1035.Parse DnsMultiZone.Rfc1035.Drop
open DnsMultiZone.Work.Connect

/-! ### State -/

/-- `DNSQueryResultItem::EnumState`. -/
inductive EnumState
  | wait
  | error
  | «match»
  | notMatch
  deriving DecidableEq

/-- `DNSQueryResultItem`: what one zone has answered. -/
structure DNSQueryResultItem where
  eState : EnumState := .wait
  luIPs : List UInt32 := []
  luIP6s : List IPv6Addr := []
  sDNSData : Bytes := []
  deriving DecidableEq

/-- `DNSQureyWorkItem`: a pending query. -/
structure DNSQureyWorkItem where
  nID : ℕ := 0
  nMaxDoneIndex : ℕ := 0
  uQType : ℕ := 0
  vsDNSQueryResultItems : List DNSQueryResultItem := []
  deriving DecidableEq

/-- `DNSQureyWork`, with the reply address its `ServerConnect` keeps. -/
structure DNSQureyWork where
  llLastTouch : ℕ := 0
  raReply : ReplyAddr
  vsDNSConnects : List DNSConnect
  sKey : Bytes
  mwDNSQureyWorkItems : Map ℕ DNSQureyWorkItem := ∅

/-- `IsIdle`. -/
def DNSQureyWork.isIdle (w : DNSQureyWork) : Bool := w.mwDNSQureyWorkItems.keys = []

/-- The configuration's zones, `gConfig.m_vsZoneInfos`. -/
abbrev Zones := List ZoneInfo

/-- `*gConfig.m_vsZoneInfos[i]`. -/
def zoneAt (zones : Zones) (i : ℕ) : ZoneInfo := zones.getD i {}

/-- `ZoneTakesPart`: a zone without a list of the family is not asked for `A` or `AAAA`. -/
def zoneTakesPart (z : ZoneInfo) (uQType : ℕ) : Bool :=
  if uQType = typeA then z.bHasV4 else if uQType = typeAAAA then z.bHasV6 else true

/-! ### A query from the client -/

/-- What asking a zone leaves: the item's state, the connection, and the calls made. -/
structure Asked where
  eState : EnumState
  conn : DNSConnect
  calls : List Call

/-- A send, and what it means for the item: an error if it fails, the state `ok` if not. -/
def sendOrError (o : SendOutcome) (sDNSData : Bytes) (ok : EnumState) (c : DNSConnect) : Asked :=
  let r := c.sendDNSQueryBuffer o sDNSData
  ⟨if r.1 then ok else .error, r.2.1, r.2.2⟩

/-- Zone `i` when a query is created. The first zone is always asked. -/
def askZone (zones : Zones) (uQType : ℕ) (sDNSData : Bytes) (outs : ℕ → SendOutcome) (i : ℕ)
    (c : DNSConnect) : Asked :=
  if i ≠ 0 ∧ ¬ zoneTakesPart (zoneAt zones i) uQType then ⟨.notMatch, c, []⟩
  else sendOrError (outs i) sDNSData .wait c

/-- A zone when a pending query comes again: it is asked again if it is waited for. -/
def askAgain (sDNSData : Bytes) (o : SendOutcome) (item : DNSQueryResultItem) (c : DNSConnect) :
    Asked :=
  if item.eState = .wait then sendOrError o sDNSData .wait c else ⟨item.eState, c, []⟩

/-- The loop of `ServerNewWork` over the items of a pending query: what became of each connection. -/
def resend (sDNSData : Bytes) (outs : ℕ → SendOutcome) (items : List DNSQueryResultItem)
    (conns : List DNSConnect) : List Asked :=
  conns.mapIdx fun i c => match items[i]? with
    | some item => askAgain sDNSData (outs i) item c
    | none => ⟨.error, c, []⟩

/-- A pending query after it has come again. -/
def DNSQureyWorkItem.resent (asked : List Asked) (wi : DNSQureyWorkItem) : DNSQureyWorkItem :=
  { wi with
    vsDNSQueryResultItems := wi.vsDNSQueryResultItems.mapIdx fun i item =>
      { item with eState := ((asked[i]?).map (·.eState)).getD item.eState } }

/-- A query when it is created. -/
def DNSQureyWorkItem.created (nID uQType : ℕ) (asked : List Asked) : DNSQureyWorkItem :=
  { nID, uQType, vsDNSQueryResultItems := asked.map fun a => { eState := a.eState } }

/-- `ServerNewWork`. Data without an ID is not handled. -/
def DNSQureyWork.serverNewWork (zones : Zones) (nID uQType : ℕ) (sDNSData : Bytes) (now : ℕ)
    (outs : ℕ → SendOutcome) (w : DNSQureyWork) : DNSQureyWork × List Call :=
  let w := { w with llLastTouch := now }
  if sDNSData.length < 2 then (w, [])
  else
    match w.mwDNSQureyWorkItems.lookup nID with
    | some wi =>
      let asked := resend sDNSData outs wi.vsDNSQueryResultItems w.vsDNSConnects
      ({ w with
          vsDNSConnects := asked.map (·.conn),
          mwDNSQureyWorkItems := w.mwDNSQureyWorkItems.insert nID (wi.resent asked) },
        asked.flatMap (·.calls))
    | none =>
      let asked := w.vsDNSConnects.mapIdx (askZone zones uQType sDNSData outs)
      ({ w with
          vsDNSConnects := asked.map (·.conn),
          mwDNSQureyWorkItems := w.mwDNSQureyWorkItems.insert nID (.created nID uQType asked) },
        asked.flatMap (·.calls))

/-! ### An error of an upstream -/

/-- One item when its zone's upstream has failed. -/
def DNSQueryResultItem.disconnect (item : DNSQueryResultItem) : DNSQueryResultItem :=
  if item.eState = .wait then { item with eState := .error } else item

/-- One pending query when the upstream of zone `nIndex` has failed. -/
def DNSQureyWorkItem.disconnect (nIndex : ℕ) (wi : DNSQureyWorkItem) : DNSQureyWorkItem :=
  { wi with vsDNSQueryResultItems := wi.vsDNSQueryResultItems.modify nIndex (·.disconnect) }

/-- `DNSQueryDisconnect`: every query waiting for the zone stops waiting for it. -/
def DNSQureyWork.dnsQueryDisconnect (nIndex : ℕ) (w : DNSQureyWork) : DNSQureyWork :=
  { w with mwDNSQureyWorkItems := mapVal (·.disconnect nIndex) w.mwDNSQureyWorkItems }

/-! ### A reply of an upstream -/

/-- The arguments of `DNSQueryResult`. -/
structure Reply where
  nID : ℕ
  uQType : ℕ
  uFlag : ℕ
  bIsParseOK : Bool
  luIPs : List UInt32
  luIP6s : List IPv6Addr
  sDNSData : Bytes

/-- What `Read` passes on of a datagram. -/
def Reply.ofDatagram (sDNSData : Bytes) : Reply :=
  let r := parseResponseA sDNSData
  ⟨r.2.1.uID, r.2.1.uQType, r.2.1.uFlag, r.1, r.2.2.luIPs, r.2.2.luIP6s, sDNSData⟩

/-- The request asks for SVCB or HTTPS. -/
def isSVCB (uReqType : ℕ) : Bool := uReqType == typeSVCB || uReqType == typeHTTPS

/-- `bUseV4`. -/
def useV4 (z : ZoneInfo) (uReqType : ℕ) : Bool := uReqType == typeA || (isSVCB uReqType && z.bHasV4)

/-- `bUseV6`. -/
def useV6 (z : ZoneInfo) (uReqType : ℕ) : Bool :=
  uReqType == typeAAAA || (isSVCB uReqType && z.bHasV6)

/-- Whether the zone's lists let each judged address through, in order. A lookup without a result
counts as none; it has one for every list of at most `2 ^ 30` entries. -/
def judged (z : ZoneInfo) (uReqType : ℕ) (r : Reply) : List Bool :=
  (if useV4 z uReqType then r.luIPs.map fun ip => (z.checkIsMatch ip).getD false else []) ++
    if useV6 z uReqType then r.luIP6s.map fun ip => (z.checkIsMatch6 ip).getD false else []

/-- The decision over the judged addresses. -/
def judgeAddresses (z : ZoneInfo) (uReqType : ℕ) (r : Reply) : EnumState :=
  let nJudgedCount := (judged z uReqType r).length
  let nMatchCount := (judged z uReqType r).count true
  if nJudgedCount = 0 then
    if z.bIsDenyNXDomain ∧ getRCode r.uFlag = rcodeNXDomain then .notMatch else .match
  else if nMatchCount ≠ 0 ∧ nJudgedCount / nMatchCount ≤ 2 then .match
  else .notMatch

/-- The item of a zone after its reply. -/
def judge (z : ZoneInfo) (uReqType : ℕ) (r : Reply) (item : DNSQueryResultItem) :
    DNSQueryResultItem :=
  let item := { item with sDNSData := r.sDNSData }
  if r.sDNSData.length = 0 then { item with eState := .error }
  else if zoneTakesPart z uReqType = false then { item with eState := .notMatch }
  else if isIPBearingType uReqType = false then { item with eState := .match }
  else if r.bIsParseOK = false then { item with eState := .notMatch }
  else if isIPBearingType r.uQType = false then { item with eState := .notMatch }
  else { item with eState := judgeAddresses z uReqType r, luIPs := r.luIPs, luIP6s := r.luIP6s }

/-- What the scan of `DNSQueryResult` decides. -/
inductive Outcome
  | waiting
  | answer (nIndex : ℕ)
  | fallback
  | nothing
  deriving DecidableEq

/-- The loop from place `i` on: the first item that is waited for or matches, and whether it matches. -/
def scanLoop : List DNSQueryResultItem → ℕ → Option (ℕ × Bool)
  | [], _ => none
  | item :: items, i =>
    if item.eState = .wait then some (i, false)
    else if item.eState = .match then some (i, true)
    else scanLoop items (i + 1)

/-- The scan that starts at the cursor, with the cursor it leaves. -/
def scan (items : List DNSQueryResultItem) (nMaxDoneIndex : ℕ) : Outcome × ℕ :=
  match scanLoop (items.drop nMaxDoneIndex) nMaxDoneIndex with
  | some (i, false) => (.waiting, i)
  | some (i, true) => (.answer i, nMaxDoneIndex)
  | none =>
    (if (items[0]?).map (·.eState) = some .notMatch then .fallback else .nothing, nMaxDoneIndex)

/-- `SendResult`: what it sends of the answer of zone `nIndex`, if it sends anything. -/
def sendResult (zones : Zones) (nIndex uQType : ℕ) (sDNSData : Bytes) : Option Bytes :=
  let z := zoneAt zones nIndex
  if z.bIsDropIPv4 = false ∧ z.bIsDropIPv6 = false then some sDNSData
  else
    match dropAddress sDNSData uQType z.bIsDropIPv4 z.bIsDropIPv6 with
    | .ok (true, sOut) => some sOut
    | _ => none

/-- What is sent is the answer, or what `DropAddress` makes of it. -/
theorem sendResult_cases {zones : Zones} {nIndex uQType : ℕ} {sDNSData sOut : Bytes}
    (h : sendResult zones nIndex uQType sDNSData = some sOut) : sOut = sDNSData ∨
      dropAddress sDNSData uQType (zoneAt zones nIndex).bIsDropIPv4 (zoneAt zones nIndex).bIsDropIPv6 =
        .ok (true, sOut) := by
  unfold sendResult at h
  dsimp only at h
  split_ifs at h
  · exact Or.inl (Option.some.inj h).symm
  · split at h
    · next sOut' hdrop => exact Or.inr (hdrop.trans (by rw [Option.some.inj h]))
    · cases h

/-- The datagram an outcome gives the client. -/
def Outcome.result (zones : Zones) (uReqType : ℕ) (items : List DNSQueryResultItem) :
    Outcome → Option Bytes
  | .answer i => sendResult zones i uReqType (((items[i]?).map (·.sDNSData)).getD [])
  | .fallback => sendResult zones 0 uReqType (((items[0]?).map (·.sDNSData)).getD [])
  | .waiting | .nothing => none

/-- `Finish`: the query is removed, and an idle work asks to be closed. -/
def DNSQureyWork.finish (nID : ℕ) (w : DNSQureyWork) : DNSQureyWork × List Call :=
  let w := { w with mwDNSQureyWorkItems := w.mwDNSQureyWorkItems.erase nID }
  (w, if w.isIdle then [.workClose w.sKey] else [])

/-- The items of a pending query after zone `nIndex` has replied. -/
def replied (zones : Zones) (nIndex : ℕ) (r : Reply) (wi : DNSQureyWorkItem) :
    List DNSQueryResultItem :=
  wi.vsDNSQueryResultItems.modify nIndex (judge (zoneAt zones nIndex) wi.uQType r)

/-- `DNSQueryResult`. -/
def DNSQureyWork.dnsQueryResult (zones : Zones) (nIndex : ℕ) (r : Reply) (w : DNSQureyWork) :
    DNSQureyWork × List Call :=
  match w.mwDNSQureyWorkItems.lookup r.nID with
  | none => (w, [])
  | some wi =>
    let items := replied zones nIndex r wi
    let s := scan items wi.nMaxDoneIndex
    if s.1 = .waiting then
      let wi := { wi with vsDNSQueryResultItems := items, nMaxDoneIndex := s.2 }
      ({ w with mwDNSQureyWorkItems := w.mwDNSQureyWorkItems.insert r.nID wi }, [])
    else
      let answer := (s.1.result zones wi.uQType items).toList.map (Call.sendTo w.raReply)
      ((w.finish r.nID).1, answer ++ (w.finish r.nID).2)

/-! ### Events -/

/-- An event of the main loop that reaches a work. -/
inductive Event
  /-- A datagram of the client, with the local address it came to, the time, and what the kernel makes
  of each zone's send. -/
  | recv (local? : Option PktInfo) (sBuffer : Bytes) (now : ℕ) (outs : ℕ → SendOutcome)
  /-- A datagram of the upstream of a zone, as `recv` returns it (at most `DEF_PKG_LEN` bytes). -/
  | read (nIndex : ℕ) (sDNSData : Bytes)
  /-- An error on the socket of a zone. -/
  | disconnect (nIndex : ℕ)
  /-- The socket of a zone can be written; what the kernel makes of each attempt. -/
  | write (nIndex : ℕ) (outs : ℕ → SendOutcome)

/-- The ID a client's datagram is filed under. -/
def queryID (sBuffer : Bytes) : ℕ := (parseRequestA sBuffer).2.uID

/-- The type it is filed under. -/
def queryType (sBuffer : Bytes) : ℕ := (parseRequestA sBuffer).2.uQType

/-- The work with `f` applied to the connection of zone `nIndex`. -/
def DNSQureyWork.withConn (nIndex : ℕ) (f : DNSConnect → DNSConnect × List Call) (w : DNSQureyWork) :
    DNSQureyWork × List Call :=
  ({ w with vsDNSConnects := w.vsDNSConnects.modify nIndex fun c => (f c).1 },
    (w.vsDNSConnects[nIndex]?).elim [] fun c => (f c).2)

/-- **One event**: `SetLocalAddr` and `OnRecvData`, or `Read`, `Disconnect`, `Write`. -/
def step (zones : Zones) : Event → DNSQureyWork → DNSQureyWork × List Call
  | .recv pLocal sBuffer now outs, w =>
    let w := { w with raReply := w.raReply.setLocalAddr pLocal }
    w.serverNewWork zones (queryID sBuffer) (queryType sBuffer) sBuffer now outs
  | .read nIndex sDNSData, w =>
    if sDNSData.length = 0 then (w, []) else w.dnsQueryResult zones nIndex (Reply.ofDatagram sDNSData)
  | .disconnect nIndex, w =>
    (w.dnsQueryDisconnect nIndex, (w.vsDNSConnects[nIndex]?).elim [] (·.removefd))
  | .write nIndex outs, w => w.withConn nIndex (·.write outs)

end DnsMultiZone.Work.Query
