import DnsMultiZone.Config.Resolv
import DnsMultiZone.Config.Lookup
import DnsMultiZone.Lib.Runs

/-! # What a zone's address comes from

A zone sees of the world only the states of its file at the calls of `RefreshResolvConf` (`seen`).
Which of them was reloaded (`lastReload`), and so the stored time, the address and the flag, is a
function of that history (`Refreshed`); the address the flag vouches for was read from the state
reloaded last.

* `zones_of_run`: in every run each zone is what its own file's history makes of it.
* `refresh_address`: which reading the address after a call is. -/

namespace DnsMultiZone.Config.Refresh

open DnsMultiZone.Lib.BigEndian DnsMultiZone.Lib.Runs
open DnsMultiZone.Config.Address DnsMultiZone.Config.ConfigType DnsMultiZone.Config.LoadFile
open DnsMultiZone.Config.Resolv DnsMultiZone.Config.Lookup

variable {inet : Inet} {z z₀ : ZoneInfo} {f f₀ : FileState} {fs : List FileState}

/-! ### One reading -/

/-- The address a text shows, with a port. -/
def addrOf (inet : Inet) (nPort : ℕ) (cAddr : Bytes) : Option SockAddr :=
  if 0x3A ∈ cAddr then (inet.pton6 cAddr).map (.inet6 · nPort 0)
  else (inet.pton4 cAddr).map (.inet · nPort)

/-- The address of the first line that shows one. -/
def readAddr (inet : Inet) (nPort : ℕ) (f : FileState) : Option SockAddr :=
  f.content.bind fun bytes =>
    (fgets 1023 1023 bytes).findSome? fun line => (serverToken line).bind (addrOf inet nPort)

theorem setDNSAddrFromString_eq (inet : Inet) (cAddr : Bytes) (z : ZoneInfo) :
    setDNSAddrFromString inet cAddr z =
      ({ z with ssDNSAddr := (addrOf inet 0 cAddr).getD (.unspec 0) }, (addrOf inet 0 cAddr).isSome) := by
  unfold setDNSAddrFromString addrOf
  split_ifs
  · rcases inet.pton6 cAddr with _ | a <;> rfl
  · rcases inet.pton4 cAddr with _ | a <;> rfl

theorem setDNSPort_addrOf (nPort : ℕ) {cAddr : Bytes} {a : SockAddr} (h : addrOf inet 0 cAddr = some a) :
    ∃ b, addrOf inet nPort cAddr = some b ∧
      ∀ z : ZoneInfo, setDNSPort nPort { z with ssDNSAddr := a } = { z with ssDNSAddr := b } := by
  unfold addrOf at h ⊢
  split_ifs at h ⊢
  · obtain ⟨x, hx, rfl⟩ := Option.map_eq_some_iff.mp h
    exact ⟨.inet6 x nPort 0, by rw [hx]; rfl, fun z => rfl⟩
  · obtain ⟨x, hx, rfl⟩ := Option.map_eq_some_iff.mp h
    exact ⟨.inet x nPort, by rw [hx]; rfl, fun z => rfl⟩

theorem addrOf_eq_none {cAddr : Bytes} {nPort : ℕ} (h : addrOf inet 0 cAddr = none) :
    addrOf inet nPort cAddr = none := by
  unfold addrOf at h ⊢
  split_ifs at h ⊢
  all_goals exact Option.map_eq_none_iff.mpr (Option.map_eq_none_iff.mp h)

/-- The loop finds the first address, and leaves an unset address unset. -/
theorem reloadLoop_eq (inet : Inet) (lines : List Bytes) (z : ZoneInfo) (hz : z.ssDNSAddr = .unspec 0) :
    reloadLoop inet lines z =
      match lines.findSome? fun line => (serverToken line).bind (addrOf inet 0) with
      | none => (z, false)
      | some a => ({ z with ssDNSAddr := a }, true) := by
  induction lines with
  | nil => rfl
  | cons line lines ih =>
    rw [reloadLoop, List.findSome?_cons]
    rcases serverToken line with _ | token
    · exact ih
    · rw [Option.bind_some]
      simp only [setDNSAddrFromString_eq]
      rcases addrOf inet 0 token with _ | a
      · have hsame : { z with ssDNSAddr := .unspec 0 } = z := by rw [← hz]
        simpa only [Option.getD_none, Option.isSome_none, hsame] using ih
      · rfl

theorem findSome_port (inet : Inet) (nPort : ℕ) (lines : List Bytes) :
    (lines.findSome? (fun line => (serverToken line).bind (addrOf inet 0)) = none ∧
      lines.findSome? (fun line => (serverToken line).bind (addrOf inet nPort)) = none) ∨
    ∃ cAddr a b, addrOf inet 0 cAddr = some a ∧ addrOf inet nPort cAddr = some b ∧
      lines.findSome? (fun line => (serverToken line).bind (addrOf inet 0)) = some a ∧
      lines.findSome? (fun line => (serverToken line).bind (addrOf inet nPort)) = some b := by
  induction lines with
  | nil => exact Or.inl ⟨rfl, rfl⟩
  | cons line lines ih =>
    simp only [List.findSome?_cons]
    rcases serverToken line with _ | token
    · exact ih
    · simp only [Option.bind_some]
      rcases h : addrOf inet 0 token with _ | a
      · rw [addrOf_eq_none h]
        exact ih
      · obtain ⟨b, hb, -⟩ := setDNSPort_addrOf nPort h
        rw [hb]
        exact Or.inr ⟨token, a, b, h, hb, rfl, rfl⟩

/-- **A reload** of a zone whose address was cleared: the address read, or nothing. -/
theorem reloadResolvConf_eq (inet : Inet) (f : FileState) (z : ZoneInfo) (hz : z.ssDNSAddr = .unspec 0) :
    reloadResolvConf inet f.content z =
      match readAddr inet z.nDNSPort f with
      | none => (z, false)
      | some a => ({ z with ssDNSAddr := a }, true) := by
  unfold reloadResolvConf readAddr
  rcases f.content with _ | bytes
  · rfl
  · simp only [Option.bind_some, reloadLoop_eq inet _ z hz]
    rcases findSome_port inet z.nDNSPort (fgets 1023 1023 bytes) with ⟨h0, h⟩ | ⟨c, a, b, ha, hb, h0, h⟩
    · rw [h0, h]
    · obtain ⟨b', hb', hset⟩ := setDNSPort_addrOf z.nDNSPort ha
      obtain rfl := Option.some.inj (hb.symm.trans hb')
      rw [h0, h]
      exact congrArg (·, true) (hset z)

/-! ### The history of one file -/

/-- The states of a file that the calls of a run saw, the newest first. -/
def seen (sFile : Bytes) : List (Entry Sys Event Unit) → List FileState
  | [] => []
  | x :: tr =>
    match x.event with
    | .edit _ _ => seen sFile tr
    | .refresh => x.before.files sFile :: seen sFile tr

/-- The modification time of the state reloaded last, 0 before the first reload. -/
def timeOf : Option FileState → ℤ
  | none => 0
  | some f => f.st_mtime.getD 0

/-- The state reloaded last: the newest whose modification time is not that of the reload before. -/
def lastReload : List FileState → Option FileState
  | [] => none
  | f :: fs =>
    if f.st_mtime = none ∨ f.st_mtime = some (timeOf (lastReload fs)) then lastReload fs else some f

/-- A zone with a file after the calls that saw a history. -/
structure Refreshed (inet : Inet) (z₀ : ZoneInfo) (fs : List FileState) (z : ZoneInfo) : Prop where
  file : z.rcfResolvConf.sResolvConfFile = z₀.rcfResolvConf.sResolvConfFile
  port : z.nDNSPort = z₀.nDNSPort
  time : z.rcfResolvConf.tResolvConfFileTime = timeOf (lastReload fs)
  unread : lastReload fs = none → ∃ p, z.ssDNSAddr = .unspec p
  addr : ∀ f, lastReload fs = some f → z.ssDNSAddr = (readAddr inet z₀.nDNSPort f).getD (.unspec 0)
  fresh : fs = [] → z.bIsDNSAddrOK = false
  flag : ∀ f fs', fs = f :: fs' → (z.bIsDNSAddrOK = true ↔
    f.st_mtime ≠ none ∧ (f.st_mtime = some (timeOf (lastReload fs')) ∨
      (readAddr inet z₀.nDNSPort f).isSome))

/-- What a call does to a zone with a file, in each of its three cases. -/
theorem refreshZone_cases (inet : Inet) (f : FileState) (z : ZoneInfo)
    (hf : z.rcfResolvConf.sResolvConfFile ≠ []) :
    (f.st_mtime = none ∧ refreshZone inet f z = { z with bIsDNSAddrOK := false }) ∨
    (f.st_mtime = some z.rcfResolvConf.tResolvConfFileTime ∧
      refreshZone inet f z = { z with bIsDNSAddrOK := true }) ∨
    ∃ t, f.st_mtime = some t ∧ t ≠ z.rcfResolvConf.tResolvConfFileTime ∧
      refreshZone inet f z = { z with
        bIsDNSAddrOK := (readAddr inet z.nDNSPort f).isSome
        ssDNSAddr := (readAddr inet z.nDNSPort f).getD (.unspec 0)
        rcfResolvConf := { z.rcfResolvConf with tResolvConfFileTime := t } } := by
  unfold refreshZone
  rw [if_neg hf]
  rcases ht : f.st_mtime with _ | t
  · exact Or.inl ⟨rfl, rfl⟩
  · right
    by_cases he : t = z.rcfResolvConf.tResolvConfFileTime
    · exact Or.inl ⟨congrArg some he, if_pos he⟩
    · refine Or.inr ⟨t, rfl, he, ?_⟩
      simp only [if_neg he]
      rw [reloadResolvConf_eq inet f _ rfl]
      rcases readAddr inet z.nDNSPort f with _ | a <;> rfl

theorem Refreshed.keep {f : FileState} {ok : Bool} (h : Refreshed inet z₀ fs z)
    (hl : lastReload (f :: fs) = lastReload fs)
    (hflag : ok = true ↔ f.st_mtime ≠ none ∧ (f.st_mtime = some (timeOf (lastReload fs)) ∨
      (readAddr inet z₀.nDNSPort f).isSome)) :
    Refreshed inet z₀ (f :: fs) { z with bIsDNSAddrOK := ok } := by
  refine ⟨h.file, h.port, by rw [hl]; exact h.time, by rw [hl]; exact h.unread,
    by rw [hl]; exact h.addr, by simp, fun g gs hg => ?_⟩
  obtain ⟨rfl, rfl⟩ := List.cons.inj hg
  exact hflag

theorem refreshed_step (hf : z₀.rcfResolvConf.sResolvConfFile ≠ []) (h : Refreshed inet z₀ fs z)
    (f : FileState) : Refreshed inet z₀ (f :: fs) (refreshZone inet f z) := by
  have hz : z.rcfResolvConf.sResolvConfFile ≠ [] := by rw [h.file]; exact hf
  rcases refreshZone_cases inet f z hz with ⟨ht, he⟩ | ⟨ht, he⟩ | ⟨t, ht, hne, he⟩
  -- the file is not there: nothing but the flag changes
  · rw [he]
    exact h.keep (if_pos (Or.inl ht)) (by simp [ht])
  -- the time is the stored one
  · have htime : f.st_mtime = some (timeOf (lastReload fs)) := by rw [ht, h.time]
    rw [he]
    exact h.keep (if_pos (Or.inr htime)) (by simp [htime])
  -- a reload
  · have hl : lastReload (f :: fs) = some f := by
      refine if_neg ?_
      rw [ht, ← h.time]
      simpa using hne
    rw [he]
    refine ⟨h.file, h.port, by rw [hl]; simp [timeOf, ht], by simp [hl], fun g hg => ?_, by simp,
      fun g gs hg => ?_⟩
    · rw [hl] at hg
      obtain rfl := Option.some.inj hg
      rw [← h.port]
    · obtain ⟨rfl, rfl⟩ := List.cons.inj hg
      rw [h.time] at hne
      simp [ht, hne, h.port]

theorem rcfResolvConf_setDNSPort (nPort : ℕ) (z : ZoneInfo) :
    (setDNSPort nPort z).rcfResolvConf = z.rcfResolvConf := by
  unfold setDNSPort
  rcases z.ssDNSAddr with _ | _ | _ <;> rfl

theorem refreshed_loaded (hl : Loaded inet z) (hf : z.rcfResolvConf.sResolvConfFile ≠ []) :
    Refreshed inet z [] z := by
  obtain ⟨cjResolvFile, cjDNSIP, cjDNSPort, z₀, hr, hok, ha, hl⟩ := hl
  unfold loadUpstream at hl
  rcases cjResolvFile with _ | sFile
  -- a zone with `dnsIP` has no file
  · rcases cjDNSIP with _ | sAddr
    · cases hl
    · simp only [setDNSAddrFromString_eq] at hl
      rcases haddr : addrOf inet 0 sAddr with _ | a
      · simp [haddr] at hl
      · simp only [haddr, Option.isSome_some] at hl
        refine absurd ?_ hf
        rw [← Option.some.inj hl, rcfResolvConf_setDNSPort]
        exact congrArg ResolvConf.sResolvConfFile hr
  · have hz := (Option.some.inj hl).symm
    simp only [setDNSPort, ha] at hz
    subst hz
    exact ⟨rfl, rfl, by simp [hr, timeOf, lastReload], fun _ => ⟨cjDNSPort, rfl⟩,
      fun f hf => by simp [lastReload] at hf, fun _ => hok, fun f fs' hfs => by cases hfs⟩

/-- A zone after the calls that saw a history, the newest first. -/
def afterCalls (inet : Inet) (fs : List FileState) (z : ZoneInfo) : ZoneInfo :=
  fs.foldr (refreshZone inet) z

/-- **One zone over a history**: its time, address and flag are those of the state reloaded last. -/
theorem refreshed_afterCalls (hl : Loaded inet z) (hf : z.rcfResolvConf.sResolvConfFile ≠ [])
    (fs : List FileState) : Refreshed inet z fs (afterCalls inet fs z) := by
  induction fs with
  | nil => exact refreshed_loaded hl hf
  | cons f fs ih => exact refreshed_step hf ih f

/-! ### Runs -/

theorem file_refreshZone (inet : Inet) (f : FileState) (z : ZoneInfo) :
    (refreshZone inet f z).rcfResolvConf.sResolvConfFile = z.rcfResolvConf.sResolvConfFile := by
  by_cases hf : z.rcfResolvConf.sResolvConfFile = []
  · rw [refreshZone, if_pos hf]
  · rcases refreshZone_cases inet f z hf with ⟨-, he⟩ | ⟨-, he⟩ | ⟨t, -, -, he⟩
    all_goals rw [he]

theorem file_afterCalls (inet : Inet) (fs : List FileState) (z : ZoneInfo) :
    (afterCalls inet fs z).rcfResolvConf.sResolvConfFile = z.rcfResolvConf.sResolvConfFile := by
  induction fs with
  | nil => rfl
  | cons f fs ih => exact (file_refreshZone inet f _).trans ih

/-- **Zones do not touch each other**: each is what the calls made of it on its own file. -/
theorem zones_of_run {files : Bytes → FileState} {zs : List ZoneInfo} {tr : List (Entry Sys Event Unit)}
    {s : Sys} (h : Run (step inet) anyStep ⟨files, zs⟩ tr s) :
    s.vsZoneInfos = zs.map fun z => afterCalls inet (seen z.rcfResolvConf.sResolvConfFile tr) z := by
  refine Run.inv (P := fun tr s => s.vsZoneInfos = zs.map fun z =>
    afterCalls inet (seen z.rcfResolvConf.sResolvConfFile tr) z) ?_ (fun tr s e ih _ => ?_) h
  · exact (List.map_id zs).symm
  · rcases e with ⟨sFile, f⟩ | _
    · exact ih
    · show refreshResolvConf inet s.files s.vsZoneInfos = _
      rw [refreshResolvConf, ih, List.map_map]
      refine List.map_congr_left fun z _ => ?_
      simp only [Function.comp_apply, file_afterCalls]
      rfl

/-! ### A file that is there before it is filled -/

/-- A zone with a file, as it is loaded. -/
def fileZone : ZoneInfo :=
  { rcfResolvConf := { sResolvConfFile := text "/r" }, nDNSPort := 53, ssDNSAddr := .unspec 53 }

theorem loaded_fileZone (inet : Inet) : ∀ z ∈ [fileZone], Loaded inet z := by
  intro z hz
  obtain rfl := List.mem_singleton.mp hz
  exact ⟨some (text "/r"), none, 53, {}, rfl, rfl, rfl, rfl⟩

/-- The state of the file with a modification time and a text. -/
def state (t : ℤ) (file : String) : FileState := ⟨some t, some (text file)⟩

/-- The file is filled before it is looked at again. -/
def filledLater : List Event :=
  [.edit (text "/r") (state 7 ""), .refresh, .edit (text "/r") (state 8 "nameserver 10.0.0.1\n"), .refresh]

/-! ### Which reading -/

/-- The address `ReloadResolvConf` reads from a state of the file, for a zone that was cleared. -/
def Reads (inet : Inet) (z : ZoneInfo) (f : FileState) (a : SockAddr) : Prop :=
  ∃ z', reloadResolvConf inet f.content { z with ssDNSAddr := .unspec 0 } = (z', true) ∧ z'.ssDNSAddr = a

theorem reads_iff {a : SockAddr} : Reads inet z f a ↔ readAddr inet z.nDNSPort f = some a := by
  unfold Reads
  rw [reloadResolvConf_eq inet f _ rfl]
  rcases readAddr inet z.nDNSPort f with _ | b
  · exact iff_of_false (fun ⟨z', h, _⟩ => by cases h) (fun h => by cases h)
  · constructor
    · rintro ⟨z', h, rfl⟩
      rw [← (Prod.mk.inj h).1]
    · intro h
      exact ⟨_, rfl, Option.some.inj h⟩

/-- **The address after a call**: when the file shows one, it is read from the file as it is if its
modification time is not that of the last reload, and from the state reloaded last if it is. -/
theorem refresh_address (inet : Inet) (files : Bytes → FileState) (zs : List ZoneInfo)
    (hl : ∀ z ∈ zs, Loaded inet z) {tr : List (Entry Sys Event Unit)} {s : Sys}
    (h : Run (step inet) anyStep ⟨files, zs⟩ tr s) {i : ℕ} (hi : zs[i]? = some z)
    (hf : z.rcfResolvConf.sResolvConfFile ≠ []) {t : ℤ} {a : SockAddr}
    (ht : (s.files z.rcfResolvConf.sResolvConfFile).st_mtime = some t)
    (ha : Reads inet z (s.files z.rcfResolvConf.sResolvConfFile) a) :
    ∃ z', (step inet .refresh s).1.vsZoneInfos[i]? = some z' ∧
      (t ≠ timeOf (lastReload (seen z.rcfResolvConf.sResolvConfFile tr)) →
        z'.bIsDNSAddrOK = true ∧ z'.ssDNSAddr = a) ∧
      ∀ f₀ a₀, lastReload (seen z.rcfResolvConf.sResolvConfFile tr) = some f₀ →
        f₀.st_mtime = some t → Reads inet z f₀ a₀ → z'.bIsDNSAddrOK = true ∧ z'.ssDNSAddr = a₀ := by
  have hzones := zones_of_run (h.next .refresh trivial)
  have hz := hl z (List.mem_of_getElem? hi)
  have href := refreshed_afterCalls hz hf
    (s.files z.rcfResolvConf.sResolvConfFile :: seen z.rcfResolvConf.sResolvConfFile tr)
  refine ⟨_, by rw [hzones, List.getElem?_map, hi]; rfl, fun hne => ?_, fun f₀ a₀ hlast ht₀ ha₀ => ?_⟩
  · have hlast : lastReload (s.files z.rcfResolvConf.sResolvConfFile ::
        seen z.rcfResolvConf.sResolvConfFile tr) = some (s.files z.rcfResolvConf.sResolvConfFile) := by
      refine if_neg ?_
      rw [ht]
      simpa using hne
    have haddr := href.addr _ hlast
    rw [reads_iff.mp ha] at haddr
    refine ⟨(href.flag _ _ rfl).mpr ⟨by simp [ht], Or.inr ?_⟩, haddr⟩
    rw [reads_iff.mp ha]
    rfl
  · have htime : t = timeOf (lastReload (seen z.rcfResolvConf.sResolvConfFile tr)) := by
      rw [hlast]
      simp [timeOf, ht₀]
    have hsame : lastReload (s.files z.rcfResolvConf.sResolvConfFile ::
        seen z.rcfResolvConf.sResolvConfFile tr) = some f₀ := by
      rw [lastReload, if_pos (Or.inr (ht.trans (congrArg some htime))), hlast]
    have haddr := href.addr _ hsame
    rw [reads_iff.mp ha₀] at haddr
    exact ⟨(href.flag _ _ rfl).mpr ⟨by simp [ht], Or.inl (ht.trans (congrArg some htime))⟩, haddr⟩

/-! ### Two edits in one second -/

/-- The file is edited again in the second of its first edit. -/
def twiceInASecond : List Event :=
  [.edit (text "/r") (state 7 "nameserver 10.0.0.1\n"), .refresh,
    .edit (text "/r") (state 7 "nameserver 10.0.0.2\n")]

/-- The second edit is not seen. -/
theorem second_edit_lost : ¬ ∀ (inet : Inet) (files : Bytes → FileState) (zs : List ZoneInfo)
    (tr : List (Entry Sys Event Unit)) (s : Sys), (∀ z ∈ zs, Loaded inet z) →
    Run (step inet) anyStep ⟨files, zs⟩ tr s → ∀ (i : ℕ) (z : ZoneInfo) (t : ℤ) (a : SockAddr),
    zs[i]? = some z → z.rcfResolvConf.sResolvConfFile ≠ [] →
    (s.files z.rcfResolvConf.sResolvConfFile).st_mtime = some t →
    Reads inet z (s.files z.rcfResolvConf.sResolvConfFile) a →
    ∃ z', (step inet .refresh s).1.vsZoneInfos[i]? = some z' ∧
      z'.bIsDNSAddrOK = true ∧ z'.ssDNSAddr = a := by
  intro h
  obtain ⟨z', hz', -, ha⟩ := h dotted (fun _ => {}) [fileZone] _ _ (loaded_fileZone dotted)
    (run_exec (step dotted) _ twiceInASecond) 0 fileZone 7 (.inet 0x0A000002 53) rfl (by decide) rfl
    (reads_iff.mpr (by decide +kernel))
  have haddr := congrArg (Option.map ZoneInfo.ssDNSAddr) hz'
  rw [Option.map_some, ha] at haddr
  exact absurd haddr (by decide +kernel)

theorem refresh_address_filledLater :
    ∃ z', (step dotted .refresh (exec (step dotted) (filledLater.take 3) []
      ⟨fun _ => {}, [fileZone]⟩).2).1.vsZoneInfos[0]? = some z' ∧
      z'.bIsDNSAddrOK = true ∧ z'.ssDNSAddr = .inet 0x0A000001 53 := by
  obtain ⟨z', hz', hnew, -⟩ := refresh_address dotted (fun _ => {}) [fileZone] (loaded_fileZone dotted)
    (run_exec (step dotted) _ (filledLater.take 3)) (rfl : [fileZone][0]? = some fileZone) (by decide)
    (t := 8) rfl (reads_iff.mpr (by decide +kernel : _ = some (.inet 0x0A000001 53)))
  exact ⟨z', hz', hnew (by decide +kernel)⟩

end DnsMultiZone.Config.Refresh
