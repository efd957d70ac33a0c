import DnsMultiZone.Config.Nameserver

/-! # Zones that are marked usable

`RefreshResolvConf` stores the modification time of a file before it has read it. If the reading fails, the
next call meets the stored time and marks the zone usable, without an address. What it reads is not the lines
of the file but the pieces `fgets` makes of them (`DnsMultiZone.Config.Nameserver`), so an address may also be
one that no line of the file gives.

* `readRight_of_short`: files with short lines are read as their lines stand.
* `usable_iff`: of files that are read as their lines stand, exactly when a zone that is marked usable has an
  address its file gave.
* `unread_usable`: a file that is there before it is filled. -/

namespace DnsMultiZone.Config.Usable

open DnsMultiZone.Lib.BigEndian DnsMultiZone.Lib.Runs DnsMultiZone.Lib.Tokens
open DnsMultiZone.Config.Address DnsMultiZone.Config.ConfigType DnsMultiZone.Config.LoadFile
open DnsMultiZone.Config.Resolv DnsMultiZone.Config.Refresh DnsMultiZone.Config.Nameserver
open DnsMultiZone.Config.Lookup (text dotted)
open DnsMultiZone.Config.ListFile (cStr_eq_self)

variable {inet : Inet} {z : ZoneInfo} {f : FileState} {fs : List FileState} {s bytes : Bytes} {nPort : ℕ}

/-! ### Lines -/

/-- The lines of a file. -/
def fileLines (bytes : Bytes) : List Bytes := bytes.splitOn 0x0A

/-- A state of a file gave an address: the second token of a line whose first is `nameserver` shows it. -/
def Gave (inet : Inet) (nPort : ℕ) (f : FileState) (a : SockAddr) : Prop :=
  ∃ bytes, f.content = some bytes ∧ ∃ L ∈ fileLines bytes, ∃ token, entryToken L = some token ∧
    ((∃ sin_addr, inet.pton4 token = some sin_addr ∧ a = .inet sin_addr nPort) ∨
      ∃ sin6_addr, inet.pton6 token = some sin6_addr ∧ a = .inet6 sin6_addr nPort 0)

/-- What a zone's flag promises: an address that a state of its file gave, with the zone's port. -/
def IsBacked (inet : Inet) (fs : List FileState) (z : ZoneInfo) : Prop :=
  z.rcfResolvConf.sResolvConfFile ≠ [] → z.bIsDNSAddrOK = true →
    ∃ f ∈ fs, Gave inet z.nDNSPort f z.ssDNSAddr

/-- Some line of a state is an entry. -/
def HasEntry (inet : Inet) (f : FileState) : Prop :=
  ∃ bytes, f.content = some bytes ∧ ∃ L ∈ fileLines bytes, IsEntry inet L

/-- If a call finds the modification time of the last reload (0 before the first), then the state that was
reloaded has an entry. -/
def ReadBefore (inet : Inet) (fs : List FileState) (f : FileState) : Prop :=
  f.st_mtime = some (timeOf (lastReload fs)) → ∃ f₀, lastReload fs = some f₀ ∧ HasEntry inet f₀

/-- **A state is read as its lines stand**: a piece, of at most 1023 bytes, that is an entry has the token of a
line, and if some line is an entry then some piece is one. -/
structure ReadRight (inet : Inet) (f : FileState) : Prop where
  told : ∀ bytes, f.content = some bytes → ∀ p ∈ fgets 1023 1023 bytes, IsEntry inet (cStr p) →
    ∃ L ∈ fileLines bytes, entryToken L = entryToken (cStr p)
  found : ∀ bytes, f.content = some bytes → (∃ L ∈ fileLines bytes, IsEntry inet L) →
    ∃ p ∈ fgets 1023 1023 bytes, IsEntry inet (cStr p)

/-! ### Short lines -/

theorem fgets_end (n : ℕ) {k : ℕ} {line : Bytes} (h : 0x0A ∉ line) (hk : line.length < k) (hne : line ≠ []) :
    fgets n k line = [line] := by
  induction line generalizing k with
  | nil => exact absurd rfl hne
  | cons c line ih =>
    rw [List.mem_cons, not_or] at h
    rw [List.length_cons] at hk
    rw [fgets, if_neg (not_or.mpr ⟨Ne.symm h.1, by omega⟩)]
    rcases line with _ | ⟨d, line⟩
    · rfl
    · rw [ih h.2 (by omega) (List.cons_ne_nil _ _)]

/-- The pieces of short lines have the tokens of the lines. -/
theorem tokens_pieces (bytes : Bytes) (h : ∀ L ∈ fileLines bytes, L.length ≤ 1022) :
    (∀ p ∈ fgets 1023 1023 bytes, ∃ L ∈ fileLines bytes, tokens isSeparator L = tokens isSeparator p) ∧
    ∀ L ∈ fileLines bytes, tokens isSeparator L ≠ [] →
      ∃ p ∈ fgets 1023 1023 bytes, tokens isSeparator p = tokens isSeparator L := by
  induction hn : bytes.length using Nat.strong_induction_on generalizing bytes with
  | _ n ih =>
    by_cases hnl : 0x0A ∈ bytes
    · obtain ⟨line, rest, rfl, hline⟩ := List.eq_append_cons_of_mem hnl
      have hlines : fileLines (line ++ 0x0A :: rest) = line :: fileLines rest :=
        List.splitOn_append_cons_self_of_not_mem hline rest
      rw [hlines] at h ⊢
      have hlen := h line List.mem_cons_self
      obtain ⟨hp, hL⟩ := ih rest.length (by rw [← hn]; simp; omega) rest
        (fun L hL => h L (List.mem_cons_of_mem _ hL)) rfl
      have hpieces : fgets 1023 1023 (line ++ 0x0A :: rest) = (line ++ [0x0A]) :: fgets 1023 1023 rest := by
        rw [fgets_line _ _ hline, fgets_short 1023 hline (by omega)]
        rfl
      have hsep : tokens isSeparator (line ++ [0x0A]) = tokens isSeparator line :=
        tokens_append_sep line (by decide)
      rw [hpieces]
      refine ⟨List.forall_mem_cons.mpr ⟨⟨line, List.mem_cons_self, hsep.symm⟩, fun p hp' => ?_⟩,
        List.forall_mem_cons.mpr ⟨fun _ => ⟨_, List.mem_cons_self, hsep⟩, fun L hL' ht => ?_⟩⟩
      · obtain ⟨L, hL, he⟩ := hp p hp'
        exact ⟨L, List.mem_cons_of_mem _ hL, he⟩
      · obtain ⟨p, hp, he⟩ := hL L hL' ht
        exact ⟨p, List.mem_cons_of_mem _ hp, he⟩
    · have hlines : fileLines bytes = [bytes] := List.splitOn_eq_singleton hnl
      rw [hlines] at h ⊢
      have hlen := h bytes (List.mem_singleton_self _)
      by_cases hne : bytes = []
      · subst hne
        refine ⟨fun p hp => (by cases hp), fun L hL ht => absurd ?_ ht⟩
        rw [List.mem_singleton.mp hL]
        rfl
      · rw [fgets_end 1023 hnl (by omega) hne]
        refine ⟨fun p hp => ⟨bytes, List.mem_singleton_self _, by rw [List.mem_singleton.mp hp]⟩,
          fun L hL _ => ⟨bytes, List.mem_singleton_self _, by rw [List.mem_singleton.mp hL]⟩⟩

theorem entryToken_of_tokens {s t : Bytes} (h : tokens isSeparator s = tokens isSeparator t) :
    entryToken s = entryToken t := by rw [entryToken, entryToken, h]

theorem zero_notMem_fgets {p : Bytes} (h : 0 ∉ bytes) (hp : p ∈ fgets 1023 1023 bytes) : 0 ∉ p := fun h0 =>
  h (flatten_fgets 1023 1023 bytes ▸ List.mem_flatten.mpr ⟨p, hp, h0⟩)

/-- **Files with lines of at most 1022 bytes**, without zero bytes, are read as their lines stand. -/
theorem readRight_of_short (h : ∀ bytes, f.content = some bytes →
    0 ∉ bytes ∧ ∀ L ∈ fileLines bytes, L.length ≤ 1022) : ReadRight inet f := by
  refine ⟨fun bytes hb p hp hentry => ?_, fun bytes hb ⟨L, hL, hentry⟩ => ?_⟩
  · obtain ⟨h0, hlen⟩ := h bytes hb
    obtain ⟨L, hL, he⟩ := (tokens_pieces bytes hlen).1 p hp
    exact ⟨L, hL, by rw [cStr_eq_self (zero_notMem_fgets h0 hp), entryToken_of_tokens he]⟩
  · obtain ⟨h0, hlen⟩ := h bytes hb
    have hne : tokens isSeparator L ≠ [] := fun hn => not_isEntry_of_blank hn hentry
    obtain ⟨p, hp, he⟩ := (tokens_pieces bytes hlen).2 L hL hne
    refine ⟨p, hp, ?_⟩
    rw [cStr_eq_self (zero_notMem_fgets h0 hp)]
    exact (isEntry_of_token (entryToken_of_tokens he)).mpr hentry

/-! ### What is read -/

theorem serverToken_cStr (s : Bytes) : serverToken s = entryToken (cStr s) := by
  have h0 : 0 ∉ cStr s := fun h => by simpa using List.mem_takeWhile_imp h
  rw [← serverToken_eq h0, serverToken, serverToken, cStr_eq_self h0]

theorem readAddr_eq (inet : Inet) (nPort : ℕ) (f : FileState) : readAddr inet nPort f =
    f.content.bind fun bytes => (fgets 1023 1023 bytes).findSome? fun p => entryAddr inet nPort (cStr p) := by
  unfold readAddr entryAddr
  simp only [serverToken_cStr]

theorem isEntry_iff (nPort : ℕ) : IsEntry inet s ↔ entryAddr inet nPort s ≠ none := by
  unfold IsEntry entryAddr
  rcases entryToken s with _ | token
  · exact Iff.rfl
  · rw [Option.bind_some, Option.bind_some]
    constructor
    · intro h
      obtain ⟨a, ha⟩ := Option.ne_none_iff_exists'.mp h
      obtain ⟨b, hb, -⟩ := setDNSPort_addrOf nPort ha
      simp [hb]
    · exact fun h h0 => h (addrOf_eq_none h0)

/-- An address is read exactly if some line is an entry, where lines are read as they stand. -/
theorem ReadRight.isSome_iff (h : ReadRight inet f) (nPort : ℕ) :
    (readAddr inet nPort f).isSome ↔ HasEntry inet f := by
  rw [readAddr_eq]
  constructor
  · intro hs
    obtain ⟨a, ha⟩ := Option.isSome_iff_exists.mp hs
    obtain ⟨bytes, hc, ha⟩ := Option.bind_eq_some_iff.mp ha
    obtain ⟨p, hp, ha⟩ := List.exists_of_findSome?_eq_some ha
    have hentry : IsEntry inet (cStr p) := (isEntry_iff nPort).mpr (by simp [ha])
    obtain ⟨L, hL, he⟩ := h.told bytes hc p hp hentry
    exact ⟨bytes, hc, L, hL, (isEntry_of_token he).mpr hentry⟩
  · rintro ⟨bytes, hc, hL⟩
    obtain ⟨p, hp, hentry⟩ := h.found bytes hc hL
    rw [hc, Option.bind_some, List.findSome?_isSome_iff]
    exact ⟨p, hp, Option.isSome_iff_ne_none.mpr ((isEntry_iff nPort).mp hentry)⟩

theorem ReadRight.gave {a : SockAddr} (h : ReadRight inet f) (ha : readAddr inet nPort f = some a) :
    Gave inet nPort f a := by
  rw [readAddr_eq] at ha
  obtain ⟨bytes, hc, ha⟩ := Option.bind_eq_some_iff.mp ha
  obtain ⟨p, hp, ha⟩ := List.exists_of_findSome?_eq_some ha
  obtain ⟨L, hL, he⟩ := h.told bytes hc p hp ((isEntry_iff nPort).mpr (by simp [ha]))
  obtain ⟨token, ht, ha⟩ := Option.bind_eq_some_iff.mp ha
  refine ⟨bytes, hc, L, hL, token, he.trans ht, ?_⟩
  unfold addrOf at ha
  split_ifs at ha
  · obtain ⟨x, hx, rfl⟩ := Option.map_eq_some_iff.mp ha
    exact Or.inr ⟨x, hx, rfl⟩
  · obtain ⟨x, hx, rfl⟩ := Option.map_eq_some_iff.mp ha
    exact Or.inl ⟨x, hx, rfl⟩

theorem not_gave_unspec {p : ℕ} : ¬ Gave inet nPort f (.unspec p) := by
  rintro ⟨bytes, -, L, -, token, -, ⟨x, -, h⟩ | ⟨x, -, h⟩⟩
  · cases h
  · cases h

/-! ### Calls -/

theorem lastReload_mem : ∀ {fs : List FileState}, lastReload fs = some f → f ∈ fs
  | [], h => by simp [lastReload] at h
  | g :: fs, h => by
    rw [lastReload] at h
    split_ifs at h
    · exact List.mem_cons_of_mem _ (lastReload_mem h)
    · rw [Option.some.inj h]
      exact List.mem_cons_self

theorem usable_call_iff (hl : Loaded inet z) (hf : z.rcfResolvConf.sResolvConfFile ≠ [])
    (f : FileState) (fs : List FileState)
    (hr : ∀ f₀, lastReload (f :: fs) = some f₀ → ReadRight inet f₀) :
    IsBacked inet (f :: fs) (afterCalls inet (f :: fs) z) ↔ ReadBefore inet fs f := by
  have h := refreshed_afterCalls hl hf (f :: fs)
  have hf' : (afterCalls inet (f :: fs) z).rcfResolvConf.sResolvConfFile ≠ [] := by
    rw [h.file]
    exact hf
  constructor
  · intro hu ht
    have hlast : lastReload (f :: fs) = lastReload fs := if_pos (Or.inr ht)
    have hflag := (h.flag f fs rfl).mpr ⟨by simp [ht], Or.inl ht⟩
    obtain ⟨g, -, hg⟩ := hu hf' hflag
    rcases hlr : lastReload fs with _ | f₀
    · obtain ⟨p, hp⟩ := h.unread (hlast.trans hlr)
      rw [hp] at hg
      exact absurd hg not_gave_unspec
    · refine ⟨f₀, rfl, ((hr f₀ (hlast.trans hlr)).isSome_iff z.nDNSPort).mp ?_⟩
      have ha := h.addr f₀ (hlast.trans hlr)
      rcases hread : readAddr inet z.nDNSPort f₀ with _ | a
      · rw [hread] at ha
        rw [ha] at hg
        exact absurd hg not_gave_unspec
      · rfl
  · intro hb _ hflag
    obtain ⟨hne, hor⟩ := (h.flag f fs rfl).mp hflag
    -- the state reloaded last, by this call or before it, had an address
    have hread : ∃ f₀, lastReload (f :: fs) = some f₀ ∧ (readAddr inet z.nDNSPort f₀).isSome := by
      by_cases ht : f.st_mtime = some (timeOf (lastReload fs))
      · have hlast : lastReload (f :: fs) = lastReload fs := if_pos (Or.inr ht)
        obtain ⟨f₀, hf₀, hentry⟩ := hb ht
        exact ⟨f₀, hlast.trans hf₀, ((hr f₀ (hlast.trans hf₀)).isSome_iff z.nDNSPort).mpr hentry⟩
      · exact ⟨f, if_neg (not_or.mpr ⟨hne, ht⟩), hor.resolve_left ht⟩
    obtain ⟨f₀, hlast, hs⟩ := hread
    obtain ⟨a, ha⟩ := Option.isSome_iff_exists.mp hs
    refine ⟨f₀, lastReload_mem hlast, ?_⟩
    rw [h.addr f₀ hlast, h.port, ha]
    exact (hr f₀ hlast).gave ha

/-- **A usable address is there**: at a call after which the states that were reloaded last are read as their
lines stand, this is so exactly when no zone's file has the modification time of a reload that had no entry (or
time 0 before the first reload). -/
theorem usable_iff (inet : Inet) (files : Bytes → FileState) (zs : List ZoneInfo)
    (hl : ∀ z ∈ zs, Loaded inet z) {tr : List (Entry Sys Event Unit)} {s : Sys}
    (h : Run (step inet) anyStep ⟨files, zs⟩ tr s) {tr' tr₀ : List (Entry Sys Event Unit)}
    {x : Entry Sys Event Unit} (hx : tr = tr' ++ x :: tr₀) (he : x.event = .refresh)
    (hr : ∀ z ∈ zs, ∀ f₀, lastReload (seen z.rcfResolvConf.sResolvConfFile (x :: tr₀)) = some f₀ →
      ReadRight inet f₀) :
    (∀ z ∈ (step inet x.event x.before).1.vsZoneInfos,
      IsBacked inet (seen z.rcfResolvConf.sResolvConfFile (x :: tr₀)) z) ↔
    ∀ z ∈ zs, z.rcfResolvConf.sResolvConfFile ≠ [] →
      ReadBefore inet (seen z.rcfResolvConf.sResolvConfFile tr₀)
        (x.before.files z.rcfResolvConf.sResolvConfFile) := by
  obtain ⟨hrun, -, -⟩ := h.at_entry hx
  have hzones := zones_of_run (hrun.next .refresh trivial)
  rw [he, hzones, List.forall_mem_map]
  refine forall₂_congr fun z hz => ?_
  have hseen : seen z.rcfResolvConf.sResolvConfFile (x :: tr₀) =
      x.before.files z.rcfResolvConf.sResolvConfFile :: seen z.rcfResolvConf.sResolvConfFile tr₀ := by
    rw [seen, he]
  have hr := hr z hz
  rw [file_afterCalls, hseen]
  rw [hseen] at hr
  by_cases hf : z.rcfResolvConf.sResolvConfFile = []
  · exact iff_of_true (fun hne => absurd ((file_afterCalls inet _ z).trans hf) hne)
      fun hne => absurd hf hne
  · rw [imp_iff_right hf]
    exact usable_call_iff (hl z hz) hf _ _ hr

/-! ### Two files -/

/-- Two zones, each with a file of its own. -/
def fileZones : List ZoneInfo :=
  [fileZone, { fileZone with rcfResolvConf := { sResolvConfFile := text "/s" } }]

theorem loaded_fileZones (inet : Inet) : ∀ z ∈ fileZones, Loaded inet z := by
  refine List.forall_mem_cons.mpr ⟨loaded_fileZone inet _ List.mem_cons_self,
    List.forall_mem_cons.mpr ⟨⟨some (text "/s"), none, 53, {}, rfl, rfl, rfl, rfl⟩, ?_⟩⟩
  simp

/-- The first file is empty at first, the second is looked at again without having changed. -/
def filledInTurn : List Event :=
  [.edit (text "/r") (state 7 ""), .edit (text "/s") (state 5 "# here\nnameserver 10.0.0.2\n"), .refresh,
    .edit (text "/r") (state 8 "search lan\nnameserver 10.0.0.1\n"), .refresh, .refresh]

/-- Both zones are usable after the last call, with the addresses of their files. -/
theorem usable_iff_inTurn :
    (∀ z ∈ (exec (step dotted) filledInTurn [] ⟨fun _ => {}, fileZones⟩).2.vsZoneInfos,
      IsBacked dotted (seen z.rcfResolvConf.sResolvConfFile
        (exec (step dotted) filledInTurn [] ⟨fun _ => {}, fileZones⟩).1) z) ∧
    (exec (step dotted) filledInTurn [] ⟨fun _ => {}, fileZones⟩).2.vsZoneInfos.map
      (fun z => (z.bIsDNSAddrOK, z.ssDNSAddr)) = [(true, .inet 0x0A000001 53), (true, .inet 0x0A000002 53)] := by
  have hfirst : ReadRight dotted (state 8 "search lan\nnameserver 10.0.0.1\n") :=
    readRight_of_short fun bytes hb => by
      obtain rfl := Option.some.inj hb
      decide +kernel
  have hsecond : ReadRight dotted (state 5 "# here\nnameserver 10.0.0.2\n") :=
    readRight_of_short fun bytes hb => by
      obtain rfl := Option.some.inj hb
      decide +kernel
  refine ⟨(usable_iff dotted (fun _ => {}) fileZones (loaded_fileZones dotted)
    (run_exec (step dotted) _ filledInTurn) (rfl : _ = [] ++ _) rfl ?_).mpr ?_, by decide +kernel⟩
  · refine List.forall_mem_cons.mpr ⟨fun f₀ hf => ?_, List.forall_mem_cons.mpr ⟨fun f₀ hf => ?_, by simp⟩⟩
    · obtain rfl := Option.some.inj hf
      exact hfirst
    · obtain rfl := Option.some.inj hf
      exact hsecond
  · refine List.forall_mem_cons.mpr ⟨fun _ _ => ⟨_, rfl, _, rfl, text "nameserver 10.0.0.1", ?_, ?_⟩,
      List.forall_mem_cons.mpr ⟨fun _ _ => ⟨_, rfl, _, rfl, text "nameserver 10.0.0.2", ?_, ?_⟩, by simp⟩⟩
    all_goals decide +kernel

/-! ### A file that is there before it is filled -/

/-- The file is found empty, and looked at again before its time has changed. -/
def emptyFirst : List Event := [.edit (text "/r") (state 7 ""), .refresh, .refresh]

/-- The second call marks the zone usable, without an address. -/
theorem unread_usable : ¬ ∀ (inet : Inet) (files : Bytes → FileState) (zs : List ZoneInfo)
    (tr : List (Entry Sys Event Unit)) (s : Sys), (∀ z ∈ zs, Loaded inet z) →
    Run (step inet) anyStep ⟨files, zs⟩ tr s →
    ∀ z ∈ s.vsZoneInfos, IsBacked inet (seen z.rcfResolvConf.sResolvConfFile tr) z := by
  intro h
  have hu := h dotted (fun _ => {}) [fileZone] _ _ (loaded_fileZone dotted)
    (run_exec (step dotted) _ emptyFirst) { fileZone with
      bIsDNSAddrOK := true
      ssDNSAddr := .unspec 0
      rcfResolvConf := ⟨text "/r", 7⟩ } List.mem_cons_self (by decide) rfl
  obtain ⟨f, -, hg⟩ := hu
  exact not_gave_unspec hg

end DnsMultiZone.Config.Usable
