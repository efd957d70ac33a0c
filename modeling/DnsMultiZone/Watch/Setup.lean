import DnsMultiZone.Watch.INotify
import DnsMultiZone.Config.Lookup
import Mathlib.Data.List.DropRight

/-! # `FileINotify::Init`

For each zone with a `resolvFile` the links are followed to a file that is none (`linkLoop`), and the
directory of that file is watched. The counter of links, 20 at first, is one for all zones.

* `linkLoop_eq`: what the loop does with a chain of links, and what is left of the counter.
* `init_iff`: exactly when every zone is watched.
* `notice_iff`: exactly when events make `INotify` refresh the zones. -/

namespace DnsMultiZone.Watch.Setup

open DnsMultiZone.Lib.BigEndian
open DnsMultiZone.Config.ConfigType DnsMultiZone.Config.Lookup
open DnsMultiZone.Watch.INotify

/-! ### Links -/

/-- What `readlink` makes of a path: a target, the errors of a path that is no link (`EINVAL`) or is not
there (`ENOENT`), or another error. -/
inductive LinkResult
  | target (sTarget : Bytes)
  | einval
  | enoent
  | error

/-- What `Init` sees of the files: the links, the directories there are, and the descriptors of watches. -/
structure Files where
  readlink : Bytes → LinkResult
  isDir : Bytes → Bool
  addWatch : Bytes → Option ℤ

/-- The `while (1)` loop of `ReadLinkAll`: the buffer of 64 bytes is doubled until it has room for one
byte more than the target and its end. `nTry` counts the doublings. -/
def readLinkLoop (sTarget : Bytes) (nTry : ℕ) : Bytes :=
  if (sTarget.take (64 * 2 ^ nTry)).length < 64 * 2 ^ nTry - 1 then sTarget.take (64 * 2 ^ nTry)
  else readLinkLoop sTarget (nTry + 1)
termination_by sTarget.length + 2 - 64 * 2 ^ nTry
decreasing_by
  have := Nat.two_pow_pos nTry
  rw [pow_succ]
  simp only [List.length_take] at *
  omega

/-- What stands before the last `/` of a path. -/
def pathOf (s : Bytes) : Bytes := (s.rdropWhile (· != 0x2F)).dropLast

/-- What stands after the last `/` of a path. -/
def nameOf (s : Bytes) : Bytes := s.rtakeWhile (· != 0x2F)

/-- Where a link leads: a relative target is put after the last `/` of the link. -/
def followed (cFile sTryPath : Bytes) : Bytes :=
  if sTryPath.head? = some 0x2F then sTryPath
  else if 0x2F ∈ cFile then pathOf cFile ++ 0x2F :: sTryPath
  else sTryPath

/-- `Util::ReadLinkAll`: the path after it, and whether there was a link. -/
def readLinkAll (fs : Files) (cFile sPath : Bytes) : Option (Bytes × Bool) :=
  match fs.readlink cFile with
  | .einval => some (sPath, false)
  | .enoent => some (sPath, false)
  | .error => none
  | .target sTarget => some (followed cFile (readLinkLoop sTarget 0), true)

/-- The `do … while` loop of `Init`, with what is left of `iMaxLink`. -/
def linkLoop (fs : Files) : ℕ → Bytes → Option (Bytes × ℕ)
  -- `ReadLinkAll` is called here too, but the test after it fails
  | 0, _ => none
  | iMaxLink + 1, sRealFile =>
    match readLinkAll fs sRealFile sRealFile with
    | none => none
    | some (sNext, true) => linkLoop fs iMaxLink sNext
    | some (sNext, false) => some (sNext, iMaxLink)

/-! ### Watches -/

/-- The watch descriptors and the file names. -/
structure Watches where
  sfdFds : List ℤ := []
  ssWatchFile : List Bytes := []

/-- The directory and the name are added if the directory can be watched. -/
def addFile (fs : Files) (sRealFile : Bytes) (w : Watches) : Option Watches :=
  if 0x2F ∉ sRealFile then none
  else if nameOf sRealFile = [] then none
  else (fs.addWatch (pathOf sRealFile)).map fun wd =>
    ⟨w.sfdFds.insert wd, w.ssWatchFile.insert (nameOf sRealFile)⟩

/-- The loop of `Init` over the zones. -/
def initLoop (fs : Files) : List ZoneInfo → ℕ → Watches → Option Watches
  | [], _, w => some w
  | z :: zs, iMaxLink, w =>
    if z.rcfResolvConf.sResolvConfFile = [] then initLoop fs zs iMaxLink w
    else
      match linkLoop fs iMaxLink z.rcfResolvConf.sResolvConfFile with
      | none => none
      | some (sRealFile, iMaxLink) =>
        match addFile fs sRealFile w with
        | none => none
        | some w => initLoop fs zs iMaxLink w

/-- `FileINotify::Init`, where `inotify_init1` succeeds: the watches, or `none` for `false`. -/
def init (fs : Files) (zs : List ZoneInfo) : Option Watches := initLoop fs zs 20 {}

/-! ### What should be watched -/

/-- `n` links lead from one path to another, which is no link. -/
inductive Chain (fs : Files) : Bytes → ℕ → Bytes → Prop
  | done {sFile : Bytes} (h : fs.readlink sFile = .einval ∨ fs.readlink sFile = .enoent) :
      Chain fs sFile 0 sFile
  | link {sFile sTarget sLast : Bytes} {n : ℕ} (h : fs.readlink sFile = .target sTarget)
      (hc : Chain fs (followed sFile sTarget) n sLast) : Chain fs sFile (n + 1) sLast

/-- The directory an absolute path lies in. -/
def dirOf (sFile : Bytes) : Bytes := if pathOf sFile = [] then [0x2F] else pathOf sFile

/-- A path is absolute and leads by `n` links, fewer than 20, to a path in a directory that is there. -/
structure Resolved (fs : Files) (sFile : Bytes) (n : ℕ) (sLast : Bytes) : Prop where
  absolute : sFile.head? = some 0x2F
  chain : Chain fs sFile n sLast
  links : n < 20
  dir : fs.isDir (dirOf sLast) = true

/-- The directory of a file is watched, and its name is noted. -/
def Watched (fs : Files) (w : Watches) (sLast : Bytes) : Prop :=
  (∃ wd, fs.addWatch (dirOf sLast) = some wd ∧ wd ∈ w.sfdFds) ∧ nameOf sLast ∈ w.ssWatchFile

/-- The zones that have a file. -/
def withFile (zs : List ZoneInfo) : List ZoneInfo := zs.filter (·.rcfResolvConf.sResolvConfFile ≠ [])

theorem mem_withFile {zs : List ZoneInfo} {z : ZoneInfo} :
    z ∈ withFile zs ↔ z ∈ zs ∧ z.rcfResolvConf.sResolvConfFile ≠ [] := by
  simp [withFile]

/-- What `inotify_add_watch` is documented to do: a directory that is there is watched, and an empty
path is none. -/
structure LawfulFiles (fs : Files) : Prop where
  watch_dir : ∀ d, fs.isDir d = true → (fs.addWatch d).isSome
  watch_nil : fs.addWatch [] = none

variable {fs : Files} {sFile sLast sTarget : Bytes} {n : ℕ}

theorem readLinkLoop_eq (sTarget : Bytes) (nTry : ℕ) : readLinkLoop sTarget nTry = sTarget := by
  fun_induction readLinkLoop sTarget nTry with
  | case1 nTry h =>
    have hlen : sTarget.length ≤ 64 * 2 ^ nTry := by
      rw [List.length_take] at h
      omega
    exact List.take_of_length_le hlen
  | case2 nTry h ih => exact ih

/-- **A chain of links**: the loop ends at its last path, and has taken one from the counter for each link
and one for the end; with a smaller counter it fails. -/
theorem linkLoop_eq (h : Chain fs sFile n sLast) (iMaxLink : ℕ) :
    linkLoop fs iMaxLink sFile = if n < iMaxLink then some (sLast, iMaxLink - (n + 1)) else none := by
  induction h generalizing iMaxLink with
  | @done sFile h =>
    rcases iMaxLink with _ | k
    · rfl
    · rcases h with h | h
      all_goals simp [linkLoop, readLinkAll, h]
  | link h _ ih =>
    rcases iMaxLink with _ | k
    · rfl
    · simp only [linkLoop, readLinkAll, h, readLinkLoop_eq, ih]
      simp only [Nat.add_lt_add_iff_right, Nat.add_sub_add_right]

/-- The paths of a chain from an absolute path all have a `/`. -/
theorem slash_of_chain (h : Chain fs sFile n sLast) (hs : 0x2F ∈ sFile) : 0x2F ∈ sLast := by
  induction h with
  | done _ => exact hs
  | @link sFile sTarget _ _ _ _ ih =>
    refine ih ?_
    unfold followed
    split_ifs with ha
    · exact List.mem_of_mem_head? ha
    · simp

theorem chain_of_linkLoop : ∀ {iMaxLink k : ℕ} {sFile : Bytes},
    linkLoop fs iMaxLink sFile = some (sLast, k) → ∃ n, Chain fs sFile n sLast
  | 0, _, _, h => by cases h
  | iMaxLink + 1, k, sFile, h => by
    unfold linkLoop readLinkAll at h
    rcases hr : fs.readlink sFile with t | _ | _ | _
    · simp only [hr, readLinkLoop_eq] at h
      obtain ⟨n, hc⟩ := chain_of_linkLoop h
      exact ⟨n + 1, Chain.link hr hc⟩
    · simp only [hr] at h
      obtain rfl := (Prod.mk.inj (Option.some.inj h)).1
      exact ⟨0, Chain.done (Or.inl hr)⟩
    · simp only [hr] at h
      obtain rfl := (Prod.mk.inj (Option.some.inj h)).1
      exact ⟨0, Chain.done (Or.inr hr)⟩
    · simp only [hr] at h
      cases h

theorem Chain.unique {n' : ℕ} {sLast' : Bytes} (h : Chain fs sFile n sLast)
    (h' : Chain fs sFile n' sLast') : n = n' ∧ sLast = sLast' := by
  have hk := linkLoop_eq h (n + n' + 1)
  rw [linkLoop_eq h' (n + n' + 1), if_pos (by omega), if_pos (by omega)] at hk
  obtain ⟨hl, hn⟩ := Prod.mk.inj (Option.some.inj hk)
  exact ⟨by omega, hl.symm⟩

/-! ### All zones -/

theorem addFile_isSome_iff (hfs : LawfulFiles fs) (h : Resolved fs sFile n sLast) (w : Watches) :
    (addFile fs sLast w).isSome ↔ pathOf sLast ≠ [] ∧ nameOf sLast ≠ [] := by
  have hs := slash_of_chain h.chain (List.mem_of_mem_head? h.absolute)
  rw [addFile, if_neg (not_not_intro hs)]
  by_cases hn : nameOf sLast = []
  · simp [hn]
  · rw [if_neg hn, Option.isSome_map]
    by_cases hp : pathOf sLast = []
    · simp [hp, hfs.watch_nil]
    · have hwd : (fs.addWatch (pathOf sLast)).isSome := by
        have hd := hfs.watch_dir _ h.dir
        rwa [dirOf, if_neg hp] at hd
      simp [hp, hn, hwd]

theorem addFile_eq_some {w w' : Watches} (h : addFile fs sLast w = some w') :
    ∃ wd, fs.addWatch (pathOf sLast) = some wd ∧
      w' = ⟨w.sfdFds.insert wd, w.ssWatchFile.insert (nameOf sLast)⟩ := by
  unfold addFile at h
  split_ifs at h
  obtain ⟨wd, hwd, rfl⟩ := Option.map_eq_some_iff.mp h
  exact ⟨wd, hwd, rfl⟩

/-- **The zones fit in the counter and every file can be watched**, exactly when the loop succeeds. -/
theorem initLoop_isSome_iff (hfs : LawfulFiles fs) {n : ZoneInfo → ℕ} {sLast : ZoneInfo → Bytes}
    (zs : List ZoneInfo) (h : ∀ z ∈ withFile zs, Resolved fs z.rcfResolvConf.sResolvConfFile (n z) (sLast z))
    (iMaxLink : ℕ) (w : Watches) :
    (initLoop fs zs iMaxLink w).isSome ↔ ((withFile zs).map (n · + 1)).sum ≤ iMaxLink ∧
      ∀ z ∈ withFile zs, pathOf (sLast z) ≠ [] ∧ nameOf (sLast z) ≠ [] := by
  induction zs generalizing iMaxLink w with
  | nil => simp [initLoop, withFile]
  | cons z zs ih =>
    by_cases hf : z.rcfResolvConf.sResolvConfFile = []
    · have hw : withFile (z :: zs) = withFile zs := List.filter_cons_of_neg (by simp [hf])
      rw [hw] at h ⊢
      rw [initLoop, if_pos hf]
      exact ih h iMaxLink w
    · have hw : withFile (z :: zs) = z :: withFile zs := List.filter_cons_of_pos (by simp [hf])
      rw [hw] at h ⊢
      have hz := h z List.mem_cons_self
      rw [initLoop, if_neg hf, linkLoop_eq hz.chain, List.map_cons, List.sum_cons, List.forall_mem_cons]
      by_cases hk : n z < iMaxLink
      · simp only [if_pos hk]
        have hadd := addFile_isSome_iff hfs hz w
        rcases ha : addFile fs (sLast z) w with _ | w'
        · rw [ha] at hadd
          have hno := (not_congr hadd).mp (by simp)
          simp [hno]
        · rw [ha] at hadd
          have hyes := hadd.mp rfl
          simp only [ih (fun y hy => h y (List.mem_cons_of_mem z hy)), and_iff_right hyes]
          refine and_congr_left' ?_
          omega
      · simp only [if_neg hk, Option.isSome_none, Bool.false_eq_true, false_iff, not_and]
        intro hsum
        omega

theorem initLoop_watches {zs : List ZoneInfo} {iMaxLink : ℕ} {w w' : Watches}
    (h : initLoop fs zs iMaxLink w = some w') :
    (∀ wd ∈ w.sfdFds, wd ∈ w'.sfdFds) ∧
    (∀ name, name ∈ w'.ssWatchFile ↔ name ∈ w.ssWatchFile ∨
      ∃ z ∈ withFile zs, ∃ n sLast, Chain fs z.rcfResolvConf.sResolvConfFile n sLast ∧
        nameOf sLast = name) ∧
    ∀ z ∈ withFile zs, ∀ n sLast, Chain fs z.rcfResolvConf.sResolvConfFile n sLast →
      ∃ wd, fs.addWatch (pathOf sLast) = some wd ∧ wd ∈ w'.sfdFds := by
  induction zs generalizing iMaxLink w with
  | nil =>
    obtain rfl := Option.some.inj h
    simp [withFile]
  | cons z zs ih =>
    by_cases hf : z.rcfResolvConf.sResolvConfFile = []
    · have hw : withFile (z :: zs) = withFile zs := List.filter_cons_of_neg (by simp [hf])
      rw [initLoop, if_pos hf] at h
      rw [hw]
      exact ih h
    · have hw : withFile (z :: zs) = z :: withFile zs := List.filter_cons_of_pos (by simp [hf])
      rw [initLoop, if_neg hf] at h
      rcases hl : linkLoop fs iMaxLink z.rcfResolvConf.sResolvConfFile with _ | ⟨sLast, k⟩
      · rw [hl] at h
        cases h
      · simp only [hl] at h
        rcases ha : addFile fs sLast w with _ | w₁
        · rw [ha] at h
          cases h
        · simp only [ha] at h
          obtain ⟨n, hchain⟩ := chain_of_linkLoop hl
          obtain ⟨wd, hwd, rfl⟩ := addFile_eq_some ha
          obtain ⟨hfd, hname, hwatch⟩ := ih h
          rw [hw]
          refine ⟨fun x hx => hfd x (List.mem_insert_of_mem hx), fun name => ?_,
            List.forall_mem_cons.mpr ⟨fun n' sLast' hc' => ?_, hwatch⟩⟩
          · rw [hname, List.mem_insert_iff, List.exists_mem_cons_iff]
            constructor
            · rintro ((rfl | hin) | hin)
              · exact Or.inr (Or.inl ⟨n, sLast, hchain, rfl⟩)
              · exact Or.inl hin
              · exact Or.inr (Or.inr hin)
            · rintro (hin | ⟨n', sLast', hc', rfl⟩ | hin)
              · exact Or.inl (Or.inr hin)
              · rw [(hchain.unique hc').2]
                exact Or.inl (Or.inl rfl)
              · exact Or.inr hin
          · obtain rfl := (hchain.unique hc').2
            exact ⟨wd, hwd, hfd wd List.mem_insert_self⟩

/-- **Every zone is watched exactly when** all zones together have at most 20 links and ends of links, and
no file lies directly under the root (or has no name). -/
theorem init_iff (hfs : LawfulFiles fs) (zs : List ZoneInfo) (n : ZoneInfo → ℕ) (sLast : ZoneInfo → Bytes)
    (h : ∀ z ∈ withFile zs, Resolved fs z.rcfResolvConf.sResolvConfFile (n z) (sLast z)) :
    (∃ w, init fs zs = some w ∧ ∀ z ∈ withFile zs, Watched fs w (sLast z)) ↔
      ((withFile zs).map (n · + 1)).sum ≤ 20 ∧
        ∀ z ∈ withFile zs, pathOf (sLast z) ≠ [] ∧ nameOf (sLast z) ≠ [] := by
  rw [← initLoop_isSome_iff hfs zs h 20 {}]
  constructor
  · rintro ⟨w, hw, -⟩
    exact Option.isSome_iff_exists.mpr ⟨w, hw⟩
  · intro hs
    obtain ⟨w, hw⟩ := Option.isSome_iff_exists.mp hs
    obtain ⟨-, hname, hwatch⟩ := initLoop_watches hw
    have hpath := ((initLoop_isSome_iff hfs zs h 20 {}).mp hs).2
    refine ⟨w, hw, fun z hz => ⟨?_, ?_⟩⟩
    · rw [dirOf, if_neg (hpath z hz).1]
      exact hwatch z hz _ _ (h z hz).chain
    · exact (hname _).mpr (Or.inr ⟨z, hz, _, _, (h z hz).chain, rfl⟩)

/-! ### Twenty-one zones -/

/-- Files without links, one directory. -/
def plainFiles : Files where
  readlink _ := .einval
  isDir d := d = text "/etc"
  addWatch d := if d = text "/etc" then some 1 else none

theorem lawful_plainFiles : LawfulFiles plainFiles := by
  refine ⟨fun d hd => ?_, by decide⟩
  have hd : d = text "/etc" := by simpa [plainFiles] using hd
  simp [plainFiles, hd]

/-- A zone with a file. -/
def zoneOf (sFile : String) : ZoneInfo := { rcfResolvConf := { sResolvConfFile := text sFile } }

theorem resolved_plainFiles {sFile : String} (ha : (text sFile).head? = some 0x2F)
    (hd : plainFiles.isDir (dirOf (text sFile)) = true) :
    Resolved plainFiles (text sFile) 0 (text sFile) :=
  ⟨ha, Chain.done (Or.inl rfl), by omega, hd⟩

/-- A counter of 20 is not enough for 21 zones, even without links. -/
theorem zones_exhaust : ¬ ∀ (fs : Files) (zs : List ZoneInfo) (n : ZoneInfo → ℕ)
    (sLast : ZoneInfo → Bytes), LawfulFiles fs →
    (∀ z ∈ withFile zs, Resolved fs z.rcfResolvConf.sResolvConfFile (n z) (sLast z)) →
    ∃ w, init fs zs = some w ∧ ∀ z ∈ withFile zs, Watched fs w (sLast z) := by
  intro h
  obtain ⟨w, hw, -⟩ := h plainFiles (List.replicate 21 (zoneOf "/etc/r")) (fun _ => 0)
    (fun _ => text "/etc/r") lawful_plainFiles fun z hz => by
      obtain rfl := List.eq_of_mem_replicate (mem_withFile.mp hz).1
      exact resolved_plainFiles (by decide) (by decide +kernel)
  have hnone : (init plainFiles (List.replicate 21 (zoneOf "/etc/r"))).isSome = false := by decide +kernel
  rw [hw] at hnone
  cases hnone

/-- Two links in a row, of which the first is relative, and a link of its own. -/
def linkedFiles : Files where
  readlink s :=
    if s = text "/etc/a" then .target (text "b")
    else if s = text "/etc/b" then .target (text "/run/net/r")
    else if s = text "/etc/c" then .target (text "../run/s")
    else .einval
  isDir d := d = text "/run/net" ∨ d = text "/etc/../run"
  addWatch d := if d = text "/run/net" then some 1 else if d = text "/etc/../run" then some 2 else none

theorem lawful_linkedFiles : LawfulFiles linkedFiles := by
  refine ⟨fun d hd => ?_, by decide +kernel⟩
  have hd : d = text "/run/net" ∨ d = text "/etc/../run" := by simpa [linkedFiles] using hd
  rcases hd with rfl | rfl
  · decide +kernel
  · decide +kernel

/-- The links of a zone's file. -/
def linksOf (z : ZoneInfo) : ℕ := if z.rcfResolvConf.sResolvConfFile = text "/etc/a" then 2 else 1

/-- The file at their end. -/
def lastOf (z : ZoneInfo) : Bytes :=
  if z.rcfResolvConf.sResolvConfFile = text "/etc/a" then text "/run/net/r" else text "/etc/../run/s"

theorem resolved_linkedFiles : ∀ z ∈ [zoneOf "/etc/a", zoneOf "/etc/c"],
    Resolved linkedFiles z.rcfResolvConf.sResolvConfFile (linksOf z) (lastOf z) := by
  refine List.forall_mem_cons.mpr ⟨⟨by decide, ?_, by decide +kernel, by decide +kernel⟩,
    List.forall_mem_cons.mpr ⟨⟨by decide, ?_, by decide +kernel, by decide +kernel⟩, by simp⟩⟩
  · have ha : linkedFiles.readlink (text "/etc/a") = .target (text "b") := rfl
    have hb : linkedFiles.readlink (text "/etc/b") = .target (text "/run/net/r") := rfl
    exact Chain.link ha (Chain.link hb (Chain.done (Or.inl rfl)))
  · have hc : linkedFiles.readlink (text "/etc/c") = .target (text "../run/s") := rfl
    exact Chain.link hc (Chain.done (Or.inl rfl))

/-- Four zones with two links and four with one leave nothing of the counter; a ninth zone fails. -/
theorem init_iff_linked :
    (∃ w, init linkedFiles (List.replicate 4 (zoneOf "/etc/a") ++ List.replicate 4 (zoneOf "/etc/c")) = some w ∧
      ∀ z ∈ withFile (List.replicate 4 (zoneOf "/etc/a") ++ List.replicate 4 (zoneOf "/etc/c")),
        Watched linkedFiles w (lastOf z)) ∧
    ¬ ∃ w, init linkedFiles (List.replicate 4 (zoneOf "/etc/a") ++ List.replicate 5 (zoneOf "/etc/c")) =
      some w ∧ ∀ z ∈ withFile (List.replicate 4 (zoneOf "/etc/a") ++ List.replicate 5 (zoneOf "/etc/c")),
        Watched linkedFiles w (lastOf z) := by
  have hres (k : ℕ) : ∀ z ∈ withFile (List.replicate 4 (zoneOf "/etc/a") ++ List.replicate k (zoneOf "/etc/c")),
      Resolved linkedFiles z.rcfResolvConf.sResolvConfFile (linksOf z) (lastOf z) := by
    intro z hz
    refine resolved_linkedFiles z ?_
    rcases List.mem_append.mp (mem_withFile.mp hz).1 with hz | hz
    · simp [List.eq_of_mem_replicate hz]
    · simp [List.eq_of_mem_replicate hz]
  refine ⟨(init_iff lawful_linkedFiles _ linksOf lastOf (hres 4)).mpr (by decide +kernel), fun h => ?_⟩
  exact absurd ((init_iff lawful_linkedFiles _ linksOf lastOf (hres 5)).mp h).1 (by decide +kernel)

/-! ### Events and watches -/

/-- A file at the end of a zone's links has this name. -/
def FinalName (fs : Files) (zs : List ZoneInfo) (name : Bytes) : Prop :=
  ∃ z ∈ withFile zs, ∃ n sLast, Chain fs z.rcfResolvConf.sResolvConfFile n sLast ∧ nameOf sLast = name

/-- **Zones are refreshed exactly when** some event in the buffer has the name of a zone's file and the
name is not one of those passed over. -/
theorem notice_iff (host : Host) {fs : Files} {zs : List ZoneInfo} {w : Watches}
    (h : init fs zs = some w) (es : List FileEvent) :
    ∃ refreshed, inotify host w.ssWatchFile (.bytes (encodes host es)) = some ⟨true, refreshed⟩ ∧
      (refreshed = true ↔ ∃ e ∈ es, FinalName fs zs e.name ∧ ¬ Ignored e.name) := by
  obtain ⟨-, hname, -⟩ := initLoop_watches h
  refine ⟨es.any fun e => decide (Hits w.ssWatchFile e), by simp [inotify, hitLoop_encodes], ?_⟩
  have hhits (e : FileEvent) : Hits w.ssWatchFile e ↔ FinalName fs zs e.name ∧ ¬ Ignored e.name := by
    rw [Hits, hname, and_comm]
    simp [FinalName]
  simp only [List.any_eq_true, decide_eq_true_eq, hhits]

/-- A file with a name is closed after writing. -/
def closed (name : String) (h0 : 0 ∉ text name) (h : (text name).length ≤ 255) : FileEvent :=
  ⟨1, 8, 0, text name, h0, h⟩

/-- A hidden file is watched, and its events are passed over. -/
theorem hidden_ignored : ¬ ∀ (host : Host) (fs : Files) (zs : List ZoneInfo) (w : Watches),
    init fs zs = some w → ∀ (es : List FileEvent) (e : FileEvent), e ∈ es → FinalName fs zs e.name →
    inotify host w.ssWatchFile (.bytes (encodes host es)) = some ⟨true, true⟩ := by
  intro h
  have hcall := h littleEndian plainFiles [zoneOf "/etc/.r"] ⟨[1], [text ".r"]⟩ rfl
    [closed ".r" (by decide) (by decide)] _ List.mem_cons_self
    ⟨zoneOf "/etc/.r", mem_withFile.mpr ⟨List.mem_cons_self, by decide⟩, 0, text "/etc/.r",
      Chain.done (Or.inl rfl), by decide +kernel⟩
  exact absurd hcall (by decide +kernel)

theorem notice_iff_second :
    ∃ refreshed, inotify littleEndian [text "r"] (.bytes (encodes littleEndian
      [closed ".r" (by decide) (by decide), closed "r" (by decide) (by decide)])) =
        some ⟨true, refreshed⟩ ∧ refreshed = true := by
  obtain ⟨refreshed, hcall, hiff⟩ := notice_iff littleEndian
    (rfl : init plainFiles [zoneOf "/etc/r"] = some ⟨[1], [text "r"]⟩)
    [closed ".r" (by decide) (by decide), closed "r" (by decide) (by decide)]
  exact ⟨refreshed, hcall, hiff.mpr ⟨_, List.mem_cons_of_mem _ List.mem_cons_self,
    ⟨zoneOf "/etc/r", mem_withFile.mpr ⟨List.mem_cons_self, by decide⟩, 0, text "/etc/r",
      Chain.done (Or.inl rfl), by decide +kernel⟩, by decide +kernel⟩⟩

end DnsMultiZone.Watch.Setup
