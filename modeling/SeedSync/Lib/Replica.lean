import Mathlib.Data.List.Induction
import SeedSync.Lib.Dict

/-!
# Replicas

A source whose rows change under a version, and a replica of it at a client: pages of the rows that
the client fetches one by one, and patches that the source sends of the rows that changed. Pages and
patches may overtake each other, and the replica keeps the newer version of a row. When nothing is
under way and all pages are fetched, the replica holds what the source holds.
-/

namespace SeedSync.Lib

variable {κ ρ : Type}

/-- The rows now, and the version at which each last changed. -/
structure Source (κ ρ : Type) where
  truth : κ → Option ρ
  version : Nat
  changed : κ → Nat
  bounded : ∀ id, changed id ≤ version

/-- A row changes at a new version. -/
def Source.touch [DecidableEq κ] (source : Source κ ρ) (truth : κ → Option ρ) (id : κ) : Source κ ρ where
  truth
  version := source.version + 1
  changed other := if other = id then source.version + 1 else source.changed other
  bounded other := by
    have := source.bounded other
    split_ifs <;> omega

/-- A row as it was said to be at a version. -/
def Source.Sound (source : Source κ ρ) (id : κ) (version : Nat) (value : Option ρ) : Prop :=
  version ≤ source.version ∧ (source.changed id ≤ version → value = source.truth id)

theorem Source.sound_now (source : Source κ ρ) (id : κ) : source.Sound id source.version (source.truth id) :=
  ⟨Nat.le_refl _, fun _ => rfl⟩

/-- What a client holds of a row: the version at which it learnt it, and the row or its absence. -/
abbrev Replica (κ ρ : Type) := Dict κ (Nat × Option ρ)

namespace Replica

variable [DecidableEq κ]

/-- A newer version is not undone by an older one. -/
def learn (rows : Replica κ ρ) (version : Nat) (entry : κ × Option ρ) : Replica κ ρ :=
  match rows.get entry.1 with
  | some (known, _) => if version < known then rows else rows.set entry.1 (version, entry.2)
  | none => rows.set entry.1 (version, entry.2)

def learnAll (rows : Replica κ ρ) (version : Nat) (entries : List (κ × Option ρ)) : Replica κ ρ :=
  entries.foldl (fun rows entry => rows.learn version entry) rows

/-- The row that the client shows. -/
def record (rows : Replica κ ρ) (id : κ) : Option ρ := (rows.get id).bind Prod.snd

theorem get_learn_ne (rows : Replica κ ρ) (version : Nat) {entry : κ × Option ρ} {id : κ} (h : entry.1 ≠ id) :
    (rows.learn version entry).get id = rows.get id := by
  unfold learn
  split
  · split_ifs
    · rfl
    · rw [Dict.get_set_ne _ h]
  · rw [Dict.get_set_ne _ h]

/-- The version at which a row is known does not fall. -/
def KnownFrom (rows : Replica κ ρ) (id : κ) (known : Nat) : Prop :=
  ∀ before value, rows.get id = some (before, value) → before ≤ known

theorem get_learn_self (rows : Replica κ ρ) (version : Nat) (entry : κ × Option ρ) :
    ∃ known value, (rows.learn version entry).get entry.1 = some (known, value) ∧ version ≤ known ∧
      rows.KnownFrom entry.1 known ∧ (known = version ∧ value = entry.2 ∨ rows.get entry.1 = some (known, value)) := by
  unfold learn KnownFrom
  split
  · next known value hrow =>
    rw [hrow]
    split_ifs with hold
    · refine ⟨known, value, hrow, Nat.le_of_lt hold, ?_, .inr rfl⟩
      intro before value' hbefore
      exact Nat.le_of_eq (Prod.mk.inj (Option.some.inj hbefore)).1.symm
    · refine ⟨version, entry.2, Dict.get_set_self _ _ _, Nat.le_refl _, ?_, .inl ⟨rfl, rfl⟩⟩
      intro before value' hbefore
      rw [← (Prod.mk.inj (Option.some.inj hbefore)).1]
      omega
  · next hnone =>
    refine ⟨version, entry.2, Dict.get_set_self _ _ _, Nat.le_refl _, ?_, .inl ⟨rfl, rfl⟩⟩
    simp [hnone]

/-- A row that is not named stays; one that is named is known at the version or above it. -/
theorem get_learnAll (rows : Replica κ ρ) (version : Nat) (entries : List (κ × Option ρ)) (id : κ) :
    id ∉ entries.map Prod.fst ∧ (rows.learnAll version entries).get id = rows.get id ∨
      id ∈ entries.map Prod.fst ∧ ∃ known value, (rows.learnAll version entries).get id = some (known, value) ∧
        version ≤ known ∧ rows.KnownFrom id known ∧
          (known = version ∧ (id, value) ∈ entries ∨ rows.get id = some (known, value)) := by
  induction entries using List.reverseRecOn with
  | nil => exact .inl ⟨by simp, rfl⟩
  | append_singleton entries entry ih =>
    have hstep : rows.learnAll version (entries ++ [entry]) = (rows.learnAll version entries).learn version entry := by
      simp [learnAll, List.foldl_append]
    rw [hstep, List.map_append, List.map_singleton]
    by_cases hid : entry.1 = id
    · subst hid
      obtain ⟨known, value, hget, hversion, hfrom, hvalue⟩ := get_learn_self (rows.learnAll version entries) version entry
      refine .inr ⟨by simp, known, value, hget, hversion, ?_, ?_⟩
      · rcases ih with ⟨-, hsame⟩ | ⟨-, known', value', hget', -, hfrom', -⟩
        · exact fun before old hold => hfrom before old (hsame.trans hold)
        · exact fun before old hold => Nat.le_trans (hfrom' before old hold) (hfrom known' value' hget')
      · rcases hvalue with ⟨hknown, rfl⟩ | hbefore
        · exact .inl ⟨hknown, by simp⟩
        · rcases ih with ⟨-, hsame⟩ | ⟨-, known', value', hget', -, -, hvalue'⟩
          · exact .inr (hsame ▸ hbefore)
          · rw [hget'] at hbefore
            obtain ⟨rfl, rfl⟩ := Prod.mk.inj (Option.some.inj hbefore)
            exact hvalue'.imp (fun h => ⟨h.1, List.mem_append_left _ h.2⟩) fun h => h
    · rw [get_learn_ne _ _ hid]
      rcases ih with ⟨hout, hsame⟩ | ⟨hin, known, value, hget, hversion, hfrom, hvalue⟩
      · exact .inl ⟨by simp [hout, Ne.symm hid], hsame⟩
      · exact .inr ⟨List.mem_append_left _ hin, known, value, hget, hversion, hfrom,
          hvalue.imp (fun h => ⟨h.1, List.mem_append_left _ h.2⟩) fun h => h⟩

end Replica

/-! ## Sessions -/

inductive Message (κ ρ : Type) where
  /-- The client is to fetch all pages again. -/
  | reset
  | patch (version : Nat) (entries : List (κ × Option ρ))

/-- The message says something of the row. -/
def Message.Names : Message κ ρ → κ → Prop
  | reset, _ => True
  | patch _ entries, id => id ∈ entries.map Prod.fst

/-- A page that is on its way: the rows it covers, and those that it holds. -/
structure Fetched (κ ρ : Type) where
  version : Nat
  covers : κ → Prop
  entries : List (κ × Option ρ)

/-- A client and its source, with what is under way between them. -/
structure Session (κ ρ : Type) where
  source : Source κ ρ
  /-- The rows of which the source has not yet told. -/
  pending : κ → Prop
  channel : List (Message κ ρ)
  page : Option (Fetched κ ρ)
  rows : Replica κ ρ
  /-- The rows that the pages so far cover. -/
  fetched : κ → Prop

namespace Session

variable [DecidableEq κ]

/-- Word of the row is still to come. -/
def Outstanding (s : Session κ ρ) (id : κ) : Prop := s.pending id ∨ ∃ message ∈ s.channel, message.Names id

/-- The client knows the row at its last change. -/
def Learnt (s : Session κ ρ) (id : κ) : Prop := ∃ known value, s.rows.get id = some (known, value) ∧ s.source.changed id ≤ known

/-- The client knows the row, or knows that there is none. -/
def Settled (s : Session κ ρ) (id : κ) : Prop :=
  s.Learnt id ∨ s.rows.get id = none ∧ s.fetched id ∧ s.source.truth id = none

structure Tracks (s : Session κ ρ) : Prop where
  rows : ∀ id known value, s.rows.get id = some (known, value) → s.source.Sound id known value
  channel : ∀ version entries, Message.patch version entries ∈ s.channel → ∀ entry ∈ entries,
    s.source.Sound entry.1 version entry.2
  /-- The last word of a row is the latest. -/
  last : ∀ before version entries after, s.channel = before ++ .patch version entries :: after →
    ∀ id ∈ entries.map Prod.fst, s.source.changed id ≤ version ∨ s.pending id ∨ ∃ message ∈ after, message.Names id
  known : ∀ id, s.rows.get id = none ∧ ¬s.fetched id ∨ s.Settled id ∨ s.Outstanding id
  page : ∀ page, s.page = some page →
    (∀ entry ∈ page.entries, page.covers entry.1 ∧ s.source.Sound entry.1 page.version entry.2) ∧
    ∀ id, page.covers id → (id ∉ page.entries.map Prod.fst → s.source.Sound id page.version none) ∧
      (s.source.changed id ≤ page.version ∨ s.Outstanding id ∨ s.Learnt id)

/-- A client that has fetched nothing. -/
theorem tracks_start (source : Source κ ρ) {pending fetched : κ → Prop} (channel : List (Message κ ρ))
    (hchannel : ∀ version entries, Message.patch version entries ∉ channel) (hfetched : ∀ id, ¬fetched id) :
    Tracks { source, pending, channel, page := none, rows := {}, fetched } where
  rows id known value hrow := absurd hrow (by simp)
  channel version entries hmem := absurd hmem (hchannel version entries)
  last before version entries after hsplit :=
    absurd (show Message.patch version entries ∈ channel by rw [show channel = _ from hsplit]; simp) (hchannel version entries)
  known id := .inl ⟨by simp, hfetched id⟩
  page := by simp

/-- When nothing is under way and every row is covered, the client shows what the source holds. -/
theorem Tracks.quiet {s : Session κ ρ} (h : s.Tracks) (hpending : ∀ id, ¬s.pending id) (hchannel : s.channel = [])
    (hfetched : ∀ id, s.fetched id) (id : κ) : s.rows.record id = s.source.truth id := by
  rcases h.known id with hunknown | hsettled | houtstanding
  · exact absurd (hfetched id) hunknown.2
  · rcases hsettled with ⟨known, value, hrow, hchanged⟩ | ⟨hnone, -, htruth⟩
    · rw [Replica.record, hrow, Option.bind_some]
      exact (h.rows id known value hrow).2 hchanged
    · rw [Replica.record, hnone, htruth]
      rfl
  · rcases houtstanding with hin | ⟨message, hin, -⟩
    · exact absurd hin (hpending id)
    · simp [hchannel] at hin

/-! ## What the source does -/

/-- More rows wait for word, or the same rows wait elsewhere. -/
theorem Tracks.await {s : Session κ ρ} (h : s.Tracks) {pending : κ → Prop} (hkeeps : ∀ id, s.pending id → pending id) :
    { s with pending }.Tracks where
  rows := h.rows
  channel := h.channel
  last before version entries after hsplit id hid :=
    (h.last before version entries after hsplit id hid).imp_right fun hrest => hrest.imp_left (hkeeps id)
  known id := (h.known id).imp_right fun hrest => hrest.imp_right fun hout => hout.imp_left (hkeeps id)
  page page hpage := by
    obtain ⟨hentries, hcovers⟩ := h.page page hpage
    refine ⟨hentries, fun id hid => ⟨(hcovers id hid).1, ?_⟩⟩
    exact (hcovers id hid).2.imp_right fun hrest => hrest.imp_left fun hout => hout.imp_left (hkeeps id)

/-- A row changes, and word of it is to come. -/
theorem Tracks.change {s : Session κ ρ} (h : s.Tracks) {truth : κ → Option ρ} {pending : κ → Prop} {id : κ}
    (htruth : ∀ other, other ≠ id → truth other = s.source.truth other)
    (hkeeps : ∀ other, s.pending other → pending other) (hpending : pending id) :
    { s with source := s.source.touch truth id, pending }.Tracks := by
  have hothers : ∀ other, other ≠ id → truth other = s.source.truth other ∧
      (s.source.touch truth id).changed other = s.source.changed other :=
    fun other hid => ⟨htruth other hid, if_neg hid⟩
  have hsound : ∀ other version value, s.source.Sound other version value → (s.source.touch truth id).Sound other version value := by
    intro other version value hold
    refine ⟨Nat.le_succ_of_le hold.1, fun hle => ?_⟩
    by_cases hid : other = id
    · have hbound := hold.1
      have hle : s.source.version + 1 ≤ version := by simpa [Source.touch, hid] using hle
      omega
    · obtain ⟨htruth, hsame⟩ := hothers other hid
      exact (hold.2 (hsame ▸ hle)).trans htruth.symm
  have houtstanding : ∀ other, s.Outstanding other → { s with source := s.source.touch truth id, pending }.Outstanding other :=
    fun other hold => hold.imp (hkeeps other) fun hin => hin
  exact {
    rows := fun other known value hrow => hsound _ _ _ (h.rows other known value hrow)
    channel := fun version entries hmem entry hentry => hsound _ _ _ (h.channel version entries hmem entry hentry)
    last := by
      intro before version entries after hsplit other hother
      by_cases hid : other = id
      · exact .inr (.inl (hid ▸ hpending))
      · rcases h.last before version entries after hsplit other hother with hle | hin | hin
        · exact .inl ((hothers other hid).2 ▸ hle)
        · exact .inr (.inl (hkeeps other hin))
        · exact .inr (.inr hin)
    known := by
      intro other
      by_cases hid : other = id
      · exact .inr (.inr (.inl (hid ▸ hpending)))
      · obtain ⟨htruth, hsame⟩ := hothers other hid
        rcases h.known other with hunknown | hsettled | hout
        · exact .inl hunknown
        · refine .inr (.inl ?_)
          rcases hsettled with ⟨known, value, hrow, hle⟩ | ⟨hnone, hfetched, hold⟩
          · exact .inl ⟨known, value, hrow, hsame ▸ hle⟩
          · exact .inr ⟨hnone, hfetched, htruth.trans hold⟩
        · exact .inr (.inr (houtstanding other hout))
    page := by
      intro page hpage
      obtain ⟨hentries, hcovers⟩ := h.page page hpage
      refine ⟨fun entry hentry => ⟨(hentries entry hentry).1, hsound _ _ _ (hentries entry hentry).2⟩, ?_⟩
      intro other hother
      obtain ⟨habsent, hfresh⟩ := hcovers other hother
      refine ⟨fun hout => hsound _ _ _ (habsent hout), ?_⟩
      by_cases hid : other = id
      · exact .inr (.inl (.inl (hid ▸ hpending)))
      · have hsame := (hothers other hid).2
        rcases hfresh with hle | hout | ⟨known, value, hrow, hle⟩
        · exact .inl (hsame ▸ hle)
        · exact .inr (.inl (houtstanding other hout))
        · exact .inr (.inr ⟨known, value, hrow, hsame ▸ hle⟩) }

/-- The source sends a message of what is pending. -/
theorem Tracks.send {s : Session κ ρ} (h : s.Tracks) {pending : κ → Prop} (message : Message κ ρ)
    (hpending : ∀ id, s.pending id → pending id ∨ message.Names id)
    (hmessage : ∀ version entries, message = .patch version entries → version = s.source.version ∧
      ∀ entry ∈ entries, entry.2 = s.source.truth entry.1) :
    { s with pending, channel := s.channel ++ [message] }.Tracks := by
  have houtstanding : ∀ id, s.Outstanding id → { s with pending, channel := s.channel ++ [message] }.Outstanding id := by
    rintro id (hin | ⟨sent, hsent, hnames⟩)
    · rcases hpending id hin with hin | hnames
      · exact .inl hin
      · exact .inr ⟨message, by simp, hnames⟩
    · exact .inr ⟨sent, List.mem_append_left _ hsent, hnames⟩
  exact {
    rows := h.rows
    channel := by
      intro version entries hmem entry hentry
      rcases List.mem_append.1 hmem with hold | hnew
      · exact h.channel version entries hold entry hentry
      · obtain ⟨rfl, htruth⟩ := hmessage version entries (List.mem_singleton.1 hnew).symm
        rw [htruth entry hentry]
        exact s.source.sound_now entry.1
    last := by
      intro before version entries after hsplit id hid
      change s.channel ++ [message] = _ at hsplit
      rcases List.eq_nil_or_concat after with rfl | ⟨rest, final, rfl⟩
      · obtain ⟨-, hlast⟩ := List.append_inj' hsplit rfl
        obtain ⟨rfl, -⟩ := hmessage version entries (List.cons.inj hlast).1
        exact .inl (s.source.bounded id)
      · rw [List.concat_eq_append, ← List.cons_append, ← List.append_assoc] at hsplit
        obtain ⟨hbefore, hfinal⟩ := List.append_inj' hsplit rfl
        rw [List.concat_eq_append, ← (List.cons.inj hfinal).1]
        rcases h.last before version entries rest hbefore id hid with hle | hin | ⟨sent, hsent, hnames⟩
        · exact .inl hle
        · rcases hpending id hin with hin | hnames
          · exact .inr (.inl hin)
          · exact .inr (.inr ⟨message, by simp, hnames⟩)
        · exact .inr (.inr ⟨sent, List.mem_append_left _ hsent, hnames⟩)
    known := fun id => (h.known id).imp (fun hunknown => hunknown) fun hrest => hrest.imp (fun hsettled => hsettled)
      (houtstanding id)
    page := by
      intro page hpage
      obtain ⟨hentries, hcovers⟩ := h.page page hpage
      refine ⟨hentries, fun id hid => ⟨(hcovers id hid).1, ?_⟩⟩
      exact (hcovers id hid).2.imp (fun hle => hle) fun hrest => hrest.imp (houtstanding id) fun hlearnt => hlearnt }

/-- The source answers a request for a page. -/
theorem Tracks.answer {s : Session κ ρ} (h : s.Tracks) {page : Fetched κ ρ} (hversion : page.version = s.source.version)
    (hentries : ∀ entry ∈ page.entries, page.covers entry.1 ∧ entry.2 = s.source.truth entry.1)
    (habsent : ∀ id, page.covers id → id ∉ page.entries.map Prod.fst → s.source.truth id = none) :
    { s with page := some page }.Tracks where
  rows := h.rows
  channel := h.channel
  last := h.last
  known := h.known
  page := by
    intro answered hanswered
    obtain rfl := Option.some.inj hanswered
    rw [hversion]
    refine ⟨fun entry hentry => ⟨(hentries entry hentry).1, ?_⟩, fun id hid => ⟨fun hout => ?_, .inl (s.source.bounded id)⟩⟩
    · rw [(hentries entry hentry).2]
      exact s.source.sound_now entry.1
    · rw [← habsent id hid hout]
      exact s.source.sound_now id

/-! ## What the client does -/

/-- The client starts over. -/
theorem Tracks.restart {s : Session κ ρ} (h : s.Tracks) {rest : List (Message κ ρ)} {message : Message κ ρ}
    (hchannel : s.channel = message :: rest) {fetched : κ → Prop} (hfetched : ∀ id, ¬fetched id) :
    { s with channel := rest, page := none, rows := {}, fetched }.Tracks where
  rows := by
    intro id known value hrow
    exact absurd hrow (by simp)
  channel version entries hmem := h.channel version entries (by rw [hchannel]; exact List.mem_cons_of_mem _ hmem)
  last before version entries after hsplit := h.last (message :: before) version entries after (by
    rw [hchannel]
    exact congrArg (message :: ·) hsplit)
  known id := .inl ⟨by simp, hfetched id⟩
  page := by simp

theorem learnAll_sound {source : Source κ ρ} {rows : Replica κ ρ} {version : Nat} {entries : List (κ × Option ρ)}
    (hrows : ∀ id known value, rows.get id = some (known, value) → source.Sound id known value)
    (hentries : ∀ entry ∈ entries, source.Sound entry.1 version entry.2) :
    ∀ id known value, (rows.learnAll version entries).get id = some (known, value) → source.Sound id known value := by
  intro id known value hrow
  rcases rows.get_learnAll version entries id with ⟨-, hsame⟩ | ⟨-, known', value', hget, -, -, hvalue⟩
  · exact hrows id known value (hsame ▸ hrow)
  · rw [hget] at hrow
    obtain ⟨rfl, rfl⟩ := Prod.mk.inj (Option.some.inj hrow)
    rcases hvalue with ⟨rfl, hin⟩ | hold
    · exact hentries _ hin
    · exact hrows id known' value' hold

/-- A patch arrives. -/
theorem Tracks.patch {s : Session κ ρ} (h : s.Tracks) {rest : List (Message κ ρ)} {version : Nat}
    {entries : List (κ × Option ρ)} (hchannel : s.channel = .patch version entries :: rest) :
    { s with channel := rest, rows := s.rows.learnAll version entries }.Tracks := by
  have hlast := h.last [] version entries rest hchannel
  -- Word of a row that the patch does not name is still under way, and what was learnt stays learnt.
  have hfresh : ∀ id, s.Outstanding id ∨ s.Learnt id →
      { s with channel := rest, rows := s.rows.learnAll version entries }.Outstanding id ∨
        { s with channel := rest, rows := s.rows.learnAll version entries }.Learnt id := by
    intro id hid
    rcases s.rows.get_learnAll version entries id with ⟨hout, hsame⟩ | ⟨hin, known, value, hget, hversion, -, -⟩
    · rcases hid with (hpending | ⟨message, hmem, hnames⟩) | ⟨known, value, hrow, hle⟩
      · exact .inl (.inl hpending)
      · rw [hchannel] at hmem
        rcases List.mem_cons.1 hmem with rfl | hmem
        · exact absurd hnames hout
        · exact .inl (.inr ⟨message, hmem, hnames⟩)
      · exact .inr ⟨known, value, hsame.trans hrow, hle⟩
    · rcases hlast id hin with hle | hpending | hafter
      · exact .inr ⟨known, value, hget, Nat.le_trans hle hversion⟩
      · exact .inl (.inl hpending)
      · exact .inl (.inr hafter)
  exact {
    rows := learnAll_sound h.rows (h.channel version entries (by simp [hchannel]))
    channel := fun version' entries' hmem => h.channel version' entries' (by rw [hchannel]; exact List.mem_cons_of_mem _ hmem)
    last := fun before version' entries' after hsplit => h.last (.patch version entries :: before) version' entries' after (by
      rw [hchannel]
      exact congrArg (.patch version entries :: ·) hsplit)
    known := by
      intro id
      rcases s.rows.get_learnAll version entries id with ⟨hout, hsame⟩ | ⟨hin, -⟩
      · rcases h.known id with hunknown | (hlearnt | hsettled) | houtstanding
        · exact .inl ⟨hsame.trans hunknown.1, hunknown.2⟩
        · exact .inr ((hfresh id (.inr hlearnt)).elim .inr fun hnow => .inl (.inl hnow))
        · exact .inr (.inl (.inr ⟨hsame.trans hsettled.1, hsettled.2⟩))
        · exact .inr ((hfresh id (.inl houtstanding)).elim .inr fun hnow => .inl (.inl hnow))
      · have hnamed : s.Outstanding id := .inr ⟨.patch version entries, by simp [hchannel], hin⟩
        exact .inr ((hfresh id (.inl hnamed)).elim .inr fun hnow => .inl (.inl hnow))
    page := by
      intro page hpage
      obtain ⟨hentries, hcovers⟩ := h.page page hpage
      refine ⟨hentries, fun id hid => ⟨(hcovers id hid).1, ?_⟩⟩
      exact (hcovers id hid).2.imp (fun hle => hle) (hfresh id) }

/-- A page arrives, and the rows that it covers are fetched. -/
theorem Tracks.arrive {s : Session κ ρ} (h : s.Tracks) {page : Fetched κ ρ} (hpage : s.page = some page)
    {fetched : κ → Prop} (hfetched : ∀ id, fetched id ↔ s.fetched id ∨ page.covers id) :
    { s with page := none, rows := s.rows.learnAll page.version page.entries, fetched }.Tracks := by
  obtain ⟨hentries, hcovers⟩ := h.page page hpage
  exact {
    rows := learnAll_sound h.rows fun entry hentry => (hentries entry hentry).2
    channel := h.channel
    last := h.last
    known := by
      intro id
      rcases s.rows.get_learnAll page.version page.entries id with ⟨hout, hsame⟩ | ⟨hin, known, value, hget, hversion, hfrom, -⟩
      · rcases h.known id with hunknown | (⟨known, value, hrow, hle⟩ | ⟨hnone, hold, htruth⟩) | houtstanding
        · by_cases hcovered : page.covers id
          · obtain ⟨habsent, hfresh⟩ := hcovers id hcovered
            rcases hfresh with hle | houtstanding | ⟨known, value, hrow, -⟩
            · exact .inr (.inl (.inr ⟨hsame.trans hunknown.1, (hfetched id).2 (.inr hcovered), ((habsent hout).2 hle).symm⟩))
            · exact .inr (.inr houtstanding)
            · rw [hunknown.1] at hrow
              exact absurd hrow (by simp)
          · refine .inl ⟨hsame.trans hunknown.1, fun hnow => ?_⟩
            rcases (hfetched id).1 hnow with hbefore | hnow
            · exact hunknown.2 hbefore
            · exact hcovered hnow
        · exact .inr (.inl (.inl ⟨known, value, hsame.trans hrow, hle⟩))
        · exact .inr (.inl (.inr ⟨hsame.trans hnone, (hfetched id).2 (.inl hold), htruth⟩))
        · exact .inr (.inr houtstanding)
      · obtain ⟨entry, hentry, rfl⟩ := List.mem_map.1 hin
        rcases (hcovers entry.1 (hentries entry hentry).1).2 with hle | houtstanding | ⟨known', value', hrow, hle⟩
        · exact .inr (.inl (.inl ⟨known, value, hget, Nat.le_trans hle hversion⟩))
        · exact .inr (.inr houtstanding)
        · exact .inr (.inl (.inl ⟨known, value, hget, Nat.le_trans hle (hfrom known' value' hrow)⟩))
    page := by simp }

end Session

end SeedSync.Lib
