import DnsMultiZone.Lib.Tokens
import DnsMultiZone.Config.ListFile
import DnsMultiZone.Config.Refresh

/-! # The first `nameserver` line of a file

A line is an entry if its first token is `nameserver` and its second an address. `ReloadResolvConf` does not
see lines: `fgets` hands it pieces of at most 1023 bytes, and it reads each piece as if it were a line.

* `serverToken_eq`: a piece is read by its tokens. `fgets_file`: the pieces of a file are those of its lines.
* `FirstUsed`: the first entry is the line that is used. `firstUsed_iff`: this is so exactly when no line
  before it has a piece that is an entry, and its own tokens are in one piece (`CutWell`).
* `cutWell_of_short`: lines of at most 1022 bytes are pieces. -/

namespace DnsMultiZone.Config.Nameserver

open DnsMultiZone.Lib.BigEndian DnsMultiZone.Lib.Tokens
open DnsMultiZone.Config.Address DnsMultiZone.Config.ConfigType DnsMultiZone.Config.LoadFile
open DnsMultiZone.Config.Resolv DnsMultiZone.Config.Refresh
open DnsMultiZone.Config.Lookup (text dotted)
open DnsMultiZone.Config.ListFile (cStr_eq_self)

/-! ### Entries -/

/-- The second token of a text whose first is `nameserver`. -/
def entryToken (s : Bytes) : Option Bytes :=
  match tokens isSeparator s with
  | first :: second :: _ => if first = nameserver then some second else none
  | _ => none

/-- The address of an entry, with a port. -/
def entryAddr (inet : Inet) (nPort : ℕ) (s : Bytes) : Option SockAddr :=
  (entryToken s).bind (addrOf inet nPort)

/-- A text that has `nameserver` for its first token and an address for its second. -/
def IsEntry (inet : Inet) (s : Bytes) : Prop := entryAddr inet 0 s ≠ none

instance (inet : Inet) (s : Bytes) : Decidable (IsEntry inet s) :=
  inferInstanceAs (Decidable (entryAddr inet 0 s ≠ none))

theorem tokens_eq_strtok (s : Bytes) : tokens isSeparator s =
    match strtok s with
    | none => []
    | some (token, rest) => token :: tokens isSeparator rest := by
  rw [← tokens_dropWhile, strtok]
  rcases h : s.dropWhile isSeparator with _ | ⟨c, cs⟩
  · rfl
  · have hc : isSeparator c = false := by
      have hhead := List.head?_dropWhile_not isSeparator s
      rw [h] at hhead
      simpa using hhead
    exact tokens_cons hc

/-- **What the loop reads** of a text without zero bytes. -/
theorem serverToken_eq {s : Bytes} (h0 : 0 ∉ s) : serverToken s = entryToken s := by
  rw [serverToken, cStr_eq_self h0, entryToken, tokens_eq_strtok]
  rcases strtok s with _ | ⟨token, rest⟩
  · rfl
  · simp only [tokens_eq_strtok rest]
    by_cases ht : token = nameserver
    · rcases strtok rest with _ | ⟨token', rest'⟩
      · rw [if_neg (not_not.mpr ht)]
        rfl
      · rw [if_neg (not_not.mpr ht)]
        exact (if_pos ht).symm
    · rw [if_pos ht]
      rcases strtok rest with _ | ⟨token', rest'⟩
      · rfl
      · exact (if_neg ht).symm

/-! ### Pieces -/

/-- The file of some lines. -/
def file (lines : List Bytes) : Bytes := lines.flatMap (· ++ [0x0A])

/-- The pieces in which the loop sees a line. -/
def pieces (line : Bytes) : List Bytes := fgets 1023 1023 (line ++ [0x0A])

theorem fgets_ne_nil (n k : ℕ) (c : UInt8) (cs : Bytes) : fgets n k (c :: cs) ≠ [] := by
  rw [fgets]
  split_ifs
  · exact List.cons_ne_nil _ _
  · rcases fgets n (k - 1) cs with _ | ⟨line, lines⟩ <;> exact List.cons_ne_nil _ _

theorem fgets_line (n k : ℕ) {line : Bytes} (h : 0x0A ∉ line) (rest : Bytes) :
    fgets n k (line ++ 0x0A :: rest) = fgets n k (line ++ [0x0A]) ++ fgets n n rest := by
  induction line generalizing k with
  | nil => simp [fgets]
  | cons c line ih =>
    rw [List.mem_cons, not_or] at h
    rw [List.cons_append, List.cons_append, fgets, fgets]
    by_cases hk : c = 0x0A ∨ k ≤ 1
    · rw [if_pos hk, if_pos hk, ih n h.2]
      rfl
    · rw [if_neg hk, if_neg hk, ih (k - 1) h.2]
      rcases hp : fgets n (k - 1) (line ++ [0x0A]) with _ | ⟨p, ps⟩
      · rcases line with _ | ⟨d, line⟩ <;> exact absurd hp (fgets_ne_nil _ _ _ _)
      · rfl

theorem fgets_file {lines : List Bytes} (h : ∀ line ∈ lines, 0x0A ∉ line) :
    fgets 1023 1023 (file lines) = lines.flatMap pieces := by
  induction lines with
  | nil => rfl
  | cons line lines ih =>
    have hfile : file (line :: lines) = line ++ 0x0A :: file lines := by
      rw [file, List.flatMap_cons, List.append_assoc]
      rfl
    rw [hfile, fgets_line _ _ (h line List.mem_cons_self),
      ih fun l hl => h l (List.mem_cons_of_mem _ hl)]
    rfl

theorem flatten_fgets (n k : ℕ) (s : Bytes) : (fgets n k s).flatten = s := by
  induction s generalizing k with
  | nil => rfl
  | cons c cs ih =>
    rw [fgets]
    split_ifs
    · exact congrArg (c :: ·) (ih n)
    · have hcs := ih (k - 1)
      rcases hf : fgets n (k - 1) cs with _ | ⟨line, lines⟩
      · rw [hf] at hcs
        exact congrArg (c :: ·) hcs
      · rw [hf] at hcs
        exact congrArg (c :: ·) hcs

theorem zero_notMem_pieces {line p : Bytes} (h : 0 ∉ line) (hp : p ∈ pieces line) : 0 ∉ p := by
  intro h0
  have hmem : (0 : UInt8) ∈ (pieces line).flatten := List.mem_flatten.mpr ⟨p, hp, h0⟩
  rw [pieces, flatten_fgets] at hmem
  rcases List.mem_append.mp hmem with hm | hm
  · exact h hm
  · exact absurd hm (by decide)

/-- A line that fits into the buffer with its newline is one piece. -/
theorem fgets_short (n : ℕ) {k : ℕ} {line : Bytes} (h : 0x0A ∉ line) (hk : line.length < k) :
    fgets n k (line ++ [0x0A]) = [line ++ [0x0A]] := by
  induction line generalizing k with
  | nil => simp [fgets]
  | cons c line ih =>
    rw [List.mem_cons, not_or] at h
    rw [List.length_cons] at hk
    rw [List.cons_append, fgets, if_neg (not_or.mpr ⟨Ne.symm h.1, by omega⟩), ih h.2 (by omega)]

/-! ### The loop -/

variable {inet : Inet} {z : ZoneInfo} {lines before after ps : List Bytes} {L p : Bytes}

/-- A piece that is no entry changes at most the address. -/
theorem reloadLoop_cons_of_not (h0 : 0 ∉ p) (hp : ¬ IsEntry inet p) (ps : List Bytes) (z : ZoneInfo) :
    ∃ a, reloadLoop inet (p :: ps) z = reloadLoop inet ps { z with ssDNSAddr := a } := by
  rw [reloadLoop, serverToken_eq h0]
  have hnone : entryAddr inet 0 p = none := not_not.mp hp
  rw [entryAddr] at hnone
  rcases ht : entryToken p with _ | token
  · exact ⟨z.ssDNSAddr, rfl⟩
  · rw [ht, Option.bind_some] at hnone
    simp only [setDNSAddrFromString_eq, hnone]
    exact ⟨.unspec 0, rfl⟩

/-- The first entry among the pieces ends the loop. -/
theorem reloadLoop_first {a : SockAddr} {pre : List Bytes} (h0 : ∀ q ∈ pre ++ p :: ps, 0 ∉ q)
    (hpre : ∀ q ∈ pre, ¬ IsEntry inet q) (hp : entryAddr inet 0 p = some a) (z : ZoneInfo) :
    reloadLoop inet (pre ++ p :: ps) z = ({ z with ssDNSAddr := a }, true) := by
  induction pre generalizing z with
  | nil =>
    rw [entryAddr] at hp
    rw [List.nil_append, reloadLoop, serverToken_eq (h0 p (by simp))]
    rcases ht : entryToken p with _ | token
    · simp [ht] at hp
    · rw [ht, Option.bind_some] at hp
      simp only [setDNSAddrFromString_eq, hp]
      rfl
  | cons q pre ih =>
    obtain ⟨b, hb⟩ := reloadLoop_cons_of_not (h0 q List.mem_cons_self) (hpre q List.mem_cons_self)
      (pre ++ p :: ps) z
    rw [List.cons_append, hb]
    exact ih (fun r hr => h0 r (List.mem_cons_of_mem _ hr)) (fun r hr => hpre r (List.mem_cons_of_mem _ hr)) _

theorem reloadLoop_none (h0 : ∀ q ∈ ps, 0 ∉ q) (hps : ∀ q ∈ ps, ¬ IsEntry inet q) (z : ZoneInfo) :
    (reloadLoop inet ps z).2 = false := by
  induction ps generalizing z with
  | nil => rfl
  | cons q ps ih =>
    obtain ⟨b, hb⟩ := reloadLoop_cons_of_not (h0 q List.mem_cons_self) (hps q List.mem_cons_self) ps z
    rw [hb]
    exact ih (fun r hr => h0 r (List.mem_cons_of_mem _ hr)) (fun r hr => hps r (List.mem_cons_of_mem _ hr)) _

theorem exists_first {P : Bytes → Prop} {l : List Bytes} (h : ∃ x ∈ l, P x) :
    ∃ pre x post, l = pre ++ x :: post ∧ (∀ y ∈ pre, ¬ P y) ∧ P x := by
  induction l with
  | nil => simp at h
  | cons y l ih =>
    by_cases hy : P y
    · exact ⟨[], y, l, rfl, by simp, hy⟩
    · obtain ⟨x, hx, hP⟩ := h
      rcases List.mem_cons.mp hx with rfl | hx
      · exact absurd hP hy
      · obtain ⟨pre, x', post, rfl, hpre, hx'⟩ := ih ⟨x, hx, hP⟩
        exact ⟨y :: pre, x', post, rfl, List.forall_mem_cons.mpr ⟨hy, hpre⟩, hx'⟩

theorem reloadLoop_iff (h0 : ∀ q ∈ ps, 0 ∉ q) (z : ZoneInfo) :
    (reloadLoop inet ps z).2 = true ↔ ∃ p ∈ ps, IsEntry inet p := by
  constructor
  · intro h
    by_contra hn
    rw [reloadLoop_none h0 (fun q hq hP => hn ⟨q, hq, hP⟩)] at h
    exact nomatch h
  · intro h
    obtain ⟨pre, p, post, rfl, hpre, hp⟩ := exists_first h
    obtain ⟨a, ha⟩ := Option.ne_none_iff_exists'.mp hp
    rw [reloadLoop_first h0 hpre ha]

theorem reloadResolvConf_snd (bytes : Bytes) (z : ZoneInfo) :
    (reloadResolvConf inet (some bytes) z).2 = (reloadLoop inet (fgets 1023 1023 bytes) z).2 := by
  unfold reloadResolvConf
  simp only
  rcases reloadLoop inet (fgets 1023 1023 bytes) z with ⟨z', _ | _⟩ <;> rfl

theorem reloadResolvConf_first {bytes : Bytes} {pre post : List Bytes}
    (hf : fgets 1023 1023 bytes = pre ++ p :: post) (h0 : ∀ q ∈ pre ++ p :: post, 0 ∉ q)
    (hpre : ∀ q ∈ pre, ¬ IsEntry inet q) (hp : IsEntry inet p) (z : ZoneInfo) :
    some (reloadResolvConf inet (some bytes) z).1.ssDNSAddr = entryAddr inet z.nDNSPort p := by
  obtain ⟨a, ha⟩ := Option.ne_none_iff_exists'.mp hp
  have hloop := reloadLoop_first h0 hpre ha z
  unfold reloadResolvConf
  simp only [hf, hloop]
  unfold entryAddr at ha ⊢
  rcases ht : entryToken p with _ | token
  · rw [ht] at ha
    exact nomatch ha
  · rw [ht, Option.bind_some] at ha
    obtain ⟨b, hb, hset⟩ := setDNSPort_addrOf z.nDNSPort ha
    rw [Option.bind_some, hb, hset z]

/-! ### Lines and pieces -/

/-- `p` holds the tokens of the line, with blank pieces before it. -/
structure Holds (L : Bytes) (blanks : List Bytes) (p : Bytes) : Prop where
  pieces_eq : ∃ rest, pieces L = blanks ++ p :: rest
  blank : ∀ q ∈ blanks, tokens isSeparator q = []
  entryToken_eq : entryToken p = entryToken L

/-- The loop ends in line `L`, after the lines `before`, at a piece that holds its tokens. -/
def EndsIn (inet : Inet) (z : ZoneInfo) (before : List Bytes) (L : Bytes) : Prop :=
  ∃ blanks p, Holds L blanks p ∧
    (reloadLoop inet (before.flatMap pieces ++ blanks) z).2 = false ∧
    (reloadLoop inet (before.flatMap pieces ++ blanks ++ [p]) z).2 = true

/-- **The first entry is used**: a reload succeeds if and only if some line is an entry, and then it sets the
address of the first such line, with the zone's port, at the tokens of which the loop ends. -/
structure FirstUsed (inet : Inet) (lines : List Bytes) (z : ZoneInfo) : Prop where
  found_iff : (reloadResolvConf inet (some (file lines)) z).2 = true ↔ ∃ L ∈ lines, IsEntry inet L
  used : ∀ before L after, lines = before ++ L :: after → (∀ K ∈ before, ¬ IsEntry inet K) →
    IsEntry inet L →
      some (reloadResolvConf inet (some (file lines)) z).1.ssDNSAddr = entryAddr inet z.nDNSPort L ∧
      EndsIn inet z before L

/-- **How the lines are cut**, up to the first entry: a line that is none has no piece that is one, and the
tokens of the first are in one piece. -/
def CutWell (inet : Inet) (lines : List Bytes) : Prop :=
  ∀ before L after, lines = before ++ L :: after → (∀ K ∈ before, ¬ IsEntry inet K) →
    (IsEntry inet L → ∃ blanks p, Holds L blanks p) ∧
    (¬ IsEntry inet L → ∀ p ∈ pieces L, ¬ IsEntry inet p)

theorem not_isEntry_of_blank {q : Bytes} (h : tokens isSeparator q = []) : ¬ IsEntry inet q := by
  simp [IsEntry, entryAddr, entryToken, h]

theorem isEntry_of_token {s t : Bytes} (h : entryToken s = entryToken t) :
    IsEntry inet s ↔ IsEntry inet t := by
  rw [IsEntry, IsEntry, entryAddr, entryAddr, h]

theorem zero_notMem_flatMap (h : ∀ L ∈ lines, 0 ∉ L) : ∀ q ∈ lines.flatMap pieces, 0 ∉ q := by
  intro q hq
  obtain ⟨L, hL, hq⟩ := List.mem_flatMap.mp hq
  exact zero_notMem_pieces (h L hL) hq

theorem CutWell.not_isEntry (h : CutWell inet lines) (hl : lines = before ++ after)
    (hb : ∀ K ∈ before, ¬ IsEntry inet K) : ∀ q ∈ before.flatMap pieces, ¬ IsEntry inet q := by
  intro q hq
  obtain ⟨K, hK, hqK⟩ := List.mem_flatMap.mp hq
  obtain ⟨pre, post, rfl⟩ := List.append_of_mem hK
  exact (h pre K (post ++ after) (by simp [hl]) fun J hJ => hb J (by simp [hJ])).2 (hb K hK) q hqK

theorem flatMap_pieces {blanks rest : List Bytes} (h : pieces L = blanks ++ p :: rest)
    (before after : List Bytes) : (before ++ L :: after).flatMap pieces =
      (before.flatMap pieces ++ blanks) ++ p :: (rest ++ after.flatMap pieces) := by
  rw [List.flatMap_append, List.flatMap_cons, h]
  simp

theorem exists_first_after (hbefore : ∀ K ∈ before, ¬ IsEntry inet K) (hL : ¬ IsEntry inet L)
    (h : ∃ K ∈ before ++ L :: after, IsEntry inet K) :
    ∃ mid L' post, after = mid ++ L' :: post ∧ (∀ J ∈ before ++ L :: mid, ¬ IsEntry inet J) ∧
      IsEntry inet L' := by
  obtain ⟨K, hK, hentry⟩ := h
  have hafter : K ∈ after := by
    rcases List.mem_append.mp hK with hK | hK
    · exact absurd hentry (hbefore K hK)
    · rcases List.mem_cons.mp hK with rfl | hK
      · exact absurd hentry hL
      · exact hK
  obtain ⟨mid, L', post, rfl, hmid, hL'⟩ := exists_first ⟨K, hafter, hentry⟩
  refine ⟨mid, L', post, rfl, fun J hJ => ?_, hL'⟩
  rcases List.mem_append.mp hJ with hJ | hJ
  · exact hbefore J hJ
  · rcases List.mem_cons.mp hJ with rfl | hJ
    · exact hL
    · exact hmid J hJ

section Lines
variable (h0 : ∀ L ∈ lines, 0 ∉ L) (hn : ∀ L ∈ lines, 0x0A ∉ L)
include h0 hn

theorem reload_iff (z : ZoneInfo) : (reloadResolvConf inet (some (file lines)) z).2 = true ↔
    ∃ p ∈ lines.flatMap pieces, IsEntry inet p := by
  rw [reloadResolvConf_snd, fgets_file hn, reloadLoop_iff (zero_notMem_flatMap h0)]

theorem CutWell.found_iff (h : CutWell inet lines) (z : ZoneInfo) :
    (reloadResolvConf inet (some (file lines)) z).2 = true ↔ ∃ L ∈ lines, IsEntry inet L := by
  rw [reload_iff h0 hn]
  constructor
  · rintro ⟨p, hp, hentry⟩
    by_contra hL
    exact h.not_isEntry (List.append_nil lines).symm (fun K hK he => hL ⟨K, hK, he⟩) p hp hentry
  · intro hL
    obtain ⟨before, L, after, rfl, hbefore, hentry⟩ := exists_first hL
    obtain ⟨blanks, p, ⟨⟨rest, hrest⟩, -, htoken⟩⟩ := (h before L after rfl hbefore).1 hentry
    exact ⟨p, by simp [flatMap_pieces hrest], (isEntry_of_token htoken).mpr hentry⟩

theorem CutWell.used (h : CutWell inet lines) (z : ZoneInfo) (hl : lines = before ++ L :: after)
    (hbefore : ∀ K ∈ before, ¬ IsEntry inet K) (hentry : IsEntry inet L) :
    some (reloadResolvConf inet (some (file lines)) z).1.ssDNSAddr = entryAddr inet z.nDNSPort L ∧
      EndsIn inet z before L := by
  obtain ⟨blanks, p, ⟨⟨rest, hrest⟩, hblank, htoken⟩⟩ := (h before L after hl hbefore).1 hentry
  have hp := (isEntry_of_token htoken).mpr hentry
  have hpre : ∀ q ∈ before.flatMap pieces ++ blanks, ¬ IsEntry inet q := by
    intro q hq
    rcases List.mem_append.mp hq with hq | hq
    · exact h.not_isEntry hl hbefore q hq
    · exact not_isEntry_of_blank (hblank q hq)
  have hzero := zero_notMem_flatMap h0
  have hfile := fgets_file hn
  rw [hl, flatMap_pieces hrest] at hzero
  rw [hl, flatMap_pieces hrest, ← hl] at hfile
  refine ⟨?_, blanks, p, ⟨⟨rest, hrest⟩, hblank, htoken⟩, ?_, ?_⟩
  · rw [reloadResolvConf_first hfile hzero hpre hp, entryAddr, entryAddr, htoken]
  · exact reloadLoop_none (fun q hq => hzero q (List.mem_append_left _ hq)) hpre z
  · refine (reloadLoop_iff (fun q hq => hzero q ?_) z).mpr ⟨p, by simp, hp⟩
    rw [List.append_cons]
    exact List.mem_append_left _ hq

/-- The loop does not get past a piece that is an entry, so the first line that is one is not a later one. -/
theorem FirstUsed.not_isEntry (h : FirstUsed inet lines z) (hl : lines = before ++ L :: after)
    (hbefore : ∀ K ∈ before, ¬ IsEntry inet K) (hL : ¬ IsEntry inet L) :
    ∀ p ∈ pieces L, ¬ IsEntry inet p := by
  intro p hp hentry
  have hfound := h.found_iff.mp
    ((reload_iff h0 hn z).mpr ⟨p, List.mem_flatMap.mpr ⟨L, by simp [hl], hp⟩, hentry⟩)
  rw [hl] at hfound
  obtain ⟨mid, L', post, rfl, hskip, hL'⟩ := exists_first_after hbefore hL hfound
  have hl' : lines = (before ++ L :: mid) ++ L' :: post := by simp [hl]
  obtain ⟨-, blanks, p', ⟨⟨rest, hrest⟩, -, -⟩, hnot, -⟩ := h.used _ L' post hl' hskip hL'
  have hzero := zero_notMem_flatMap h0
  rw [hl', flatMap_pieces hrest] at hzero
  have hmem : p ∈ (before ++ L :: mid).flatMap pieces ++ blanks :=
    List.mem_append_left _ (List.mem_flatMap.mpr ⟨L, by simp, hp⟩)
  rw [(reloadLoop_iff (fun q hq => hzero q (List.mem_append_left _ hq)) z).mpr ⟨p, hmem, hentry⟩] at hnot
  simp at hnot

end Lines

/-- **The first entry of a file is used** exactly when the buffer cuts its lines well, up to it. -/
theorem firstUsed_iff (inet : Inet) (z : ZoneInfo) (lines : List Bytes)
    (hl : ∀ L ∈ lines, 0 ∉ L ∧ 0x0A ∉ L) : FirstUsed inet lines z ↔ CutWell inet lines := by
  have h0 : ∀ L ∈ lines, 0 ∉ L := fun L hL => (hl L hL).1
  have hn : ∀ L ∈ lines, 0x0A ∉ L := fun L hL => (hl L hL).2
  constructor
  · refine fun h before L after hlines hbefore => ⟨fun hentry => ?_, h.not_isEntry h0 hn hlines hbefore⟩
    obtain ⟨-, blanks, p, hholds, -, -⟩ := h.used before L after hlines hbefore hentry
    exact ⟨blanks, p, hholds⟩
  · exact fun h => ⟨h.found_iff h0 hn z, fun before L after => h.used h0 hn z⟩

/-! ### Short lines -/

/-- Lines of at most 1022 bytes are not cut. -/
theorem cutWell_of_short (hl : ∀ L ∈ lines, 0x0A ∉ L ∧ L.length ≤ 1022) : CutWell inet lines := by
  rintro before L after rfl -
  obtain ⟨hn, hlen⟩ := hl L (by simp)
  have hone : pieces L = [L ++ [0x0A]] := fgets_short 1023 hn (by omega)
  have htoken : entryToken (L ++ [0x0A]) = entryToken L := by
    rw [entryToken, entryToken, tokens_append_sep L (by decide)]
  refine ⟨fun _ => ⟨[], L ++ [0x0A], ⟨[], hone⟩, by simp, htoken⟩, fun hentry p hp => ?_⟩
  rw [hone, List.mem_singleton] at hp
  rw [hp, isEntry_of_token htoken]
  exact hentry

/-! ### A long comment -/

/-- A comment of which the last 18 bytes are a piece. -/
def comment : Bytes := List.replicate 1023 0x23 ++ text "nameserver 1.2.3.4"

/-- The end of a comment is used. -/
theorem comment_used : ¬ ∀ (inet : Inet) (z : ZoneInfo) (lines : List Bytes),
    (∀ L ∈ lines, 0 ∉ L ∧ 0x0A ∉ L) → FirstUsed inet lines z := by
  intro h
  have hclean : ∀ L ∈ [comment], 0 ∉ L ∧ 0x0A ∉ L := by decide +kernel
  have hreload : (reloadResolvConf dotted (some (file [comment])) {}).2 = true := by decide +kernel
  obtain ⟨L, hL, hentry⟩ := (h dotted {} [comment] hclean).found_iff.mp hreload
  obtain rfl := List.mem_singleton.mp hL
  exact hentry (by decide +kernel)

theorem CutWell.cons (hL : ∀ p ∈ pieces L, ¬ IsEntry inet p) (hn : ¬ IsEntry inet L)
    (h : CutWell inet lines) : CutWell inet (L :: lines) := by
  intro before K after hl hb
  rcases before with _ | ⟨J, before⟩
  · obtain ⟨rfl, -⟩ := List.cons.inj hl
    exact ⟨fun hentry => absurd hentry hn, fun _ => hL⟩
  · obtain ⟨rfl, hrest⟩ := List.cons.inj hl
    exact h before K after hrest fun I hI => hb I (List.mem_cons_of_mem _ hI)

theorem CutWell.first {blanks : List Bytes} (hL : IsEntry inet L) (h : Holds L blanks p) :
    CutWell inet (L :: lines) := by
  intro before K after hl hb
  rcases before with _ | ⟨J, before⟩
  · obtain ⟨rfl, -⟩ := List.cons.inj hl
    exact ⟨fun _ => ⟨blanks, p, h⟩, fun hn => absurd hL hn⟩
  · obtain ⟨rfl, -⟩ := List.cons.inj hl
    exact absurd hL (hb _ List.mem_cons_self)

/-- An entry in the second piece of its line, behind a line without an address and a comment of two pieces. -/
theorem firstUsed_iff_longLines : FirstUsed dotted
    [text "nameserver x", List.replicate 1100 0x23,
      List.replicate 1023 0x20 ++ text "nameserver 1.2.3.4"] {} := by
  have hblank : CutWell dotted [List.replicate 1023 0x20 ++ text "nameserver 1.2.3.4"] :=
    CutWell.first (by decide +kernel)
      (⟨⟨[], by decide +kernel⟩, by decide +kernel, by decide +kernel⟩ :
        Holds _ [List.replicate 1023 0x20] (text "nameserver 1.2.3.4" ++ [0x0A]))
  have hcomment := CutWell.cons (by decide +kernel) (by decide +kernel)
    (h := hblank) (L := List.replicate 1100 0x23)
  exact (firstUsed_iff dotted {} _ (by decide +kernel)).mpr
    (CutWell.cons (by decide +kernel) (by decide +kernel) hcomment)

end DnsMultiZone.Config.Nameserver
