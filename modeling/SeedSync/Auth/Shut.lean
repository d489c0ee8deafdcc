import SeedSync.Auth.Bound
import SeedSync.Auth.Window

/-!
# Versions that stay shut

A version is shut when no window for it can be open, now or later. What the handover operations leave of
this, and of the recoveries that the window file remembers.
-/

namespace SeedSync.Auth

open Lib

section

variable {dates : DateTimes} {digest : Codes → Codes}

/-! ## The file is read as it was written -/

theorem handoverKind_text (kind : HandoverKind) : handoverKind (.str kind.text) = some kind := by
  cases kind <;> simp [handoverKind, HandoverKind.text]

theorem eq_of_readDeadline {kind : HandoverKind} {version openedAt expiresAt : Codes} {read : Deadline}
    (h : readDeadline dates (.str kind.text) (.str version) (.str openedAt) (.str expiresAt) = some read) :
    read = ⟨kind, version, openedAt, expiresAt⟩ := by
  unfold readDeadline at h
  rw [handoverKind_text] at h
  simp only [strItem, Option.bind_eq_bind, Option.bind_some, Option.pure_def] at h
  split_ifs at h
  cases h
  rfl

theorem eq_of_readActive {active : Option Deadline} {read : Option Deadline}
    (h : readActive dates ((active.map Deadline.payload).getD .null) = some read) : read = active := by
  cases active with
  | none =>
    cases h
    rfl
  | some deadline =>
    simp only [Option.map_some, Option.getD_some, Deadline.payload, readActive] at h
    split_ifs at h
    obtain ⟨found, hfound, rfl⟩ := Option.map_eq_some_iff.1 h
    have hfield : readDeadline dates (.str deadline.kind.text) (.str deadline.versionSha256) (.str deadline.openedAt)
        (.str deadline.expiresAt) = some found := by simpa [field] using hfound
    rw [eq_of_readDeadline hfield]

theorem eq_of_readSeenVersions {seen read : List Codes} (h : readSeenVersions (seen.map Json.str) = some read) :
    read = seen := by
  have hall : (seen.map Json.str).mapM strItem = some seen := mapM_map_some fun text _ => rfl
  unfold readSeenVersions at h
  rw [hall] at h
  simp only [Option.bind_eq_bind, Option.bind_some] at h
  split_ifs at h
  cases h
  rfl

theorem eq_of_readDeadlineState {state read : DeadlineState} (h : readDeadlineState dates digest state.doc = some read) :
    read = state := by
  unfold readDeadlineState at h
  split_ifs at h with hlarge
  have hread : (do
      let active ← readActive dates ((state.active.map Deadline.payload).getD .null)
      return ⟨active, ← readSeenVersions (state.seenRecoveryVersions.map Json.str)⟩ : Option DeadlineState) = some read := by
    simpa [DeadlineState.doc, DeadlineState.payload, field, hasKeys, hasField, Json.equalsNat] using h
  simp only [Option.bind_eq_bind, Option.bind_eq_some_iff, Option.pure_def, Option.some.injEq] at hread
  obtain ⟨active, hactive, seen, hseen, rfl⟩ := hread
  rw [eq_of_readActive hactive, eq_of_readSeenVersions hseen]

/-! ## Recoveries that are remembered -/

def DeadlineState.Remembered (state : DeadlineState) : Prop :=
  ∀ active, state.active = some active → active.kind = .recovery → active.versionSha256 ∈ state.seenRecoveryVersions

/-- The recovery in memory, and the one of the file, are among those seen. -/
structure Standing.Remembered (dates : DateTimes) (digest : Codes → Codes) (at_ : Standing) : Prop where
  view : ∀ state, at_.view.state = some state → state.Remembered
  file : ∀ doc, at_.file = some doc → ∀ state, readDeadlineState dates digest doc = some state → state.Remembered

theorem DeadlineState.Remembered.open {state : DeadlineState} (deadline : Deadline) : (state.open deadline).Remembered := by
  intro active hactive hkind
  cases hactive
  simp [DeadlineState.open, hkind]

theorem DeadlineState.Remembered.close {state : DeadlineState} : ({ state with active := none } : DeadlineState).Remembered :=
  fun active hactive => by cases hactive

theorem Standing.Remembered.set {at_ last : Standing} (h : at_.Remembered dates digest) {state : DeadlineState}
    (hstate : state.Remembered) (hview : last.view.state = some state) (hfile : last.file = at_.file ∨ last.file = some state.doc) :
    last.Remembered dates digest where
  view := by
    intro found hfound
    rw [hview, Option.some.injEq] at hfound
    exact hfound ▸ hstate
  file := by
    intro doc hdoc read hread
    rcases hfile with hfile | hfile
    · exact h.file doc (hfile ▸ hdoc) read hread
    · rw [hfile, Option.some.injEq] at hdoc
      subst hdoc
      rw [eq_of_readDeadlineState hread]
      exact hstate

/-! ## Shut versions -/

def View.Shut (dates : DateTimes) (digest : Codes → Codes) (now : Int) (view : View) (version : Codes) : Prop :=
  view.invalid = true ∨ (digest version ∈ view.seen ∧ ∀ active, view.active = some active → active.kind = .recovery →
    active.versionSha256 = digest version → deadlineExpired dates now active = true)

theorem deadlineExpired_later {now later : Int} (h : now ≤ later) {deadline : Deadline}
    (hexpired : deadlineExpired dates now deadline = true) : deadlineExpired dates later deadline = true := by
  unfold deadlineExpired isPast at hexpired ⊢
  generalize dates.fromisoformat deadline.expiresAt = read at hexpired ⊢
  cases read with
  | none => rfl
  | some time =>
    dsimp only at hexpired ⊢
    cases hinstant : instant time with
    | none => rfl
    | some at_ =>
      rw [hinstant] at hexpired
      have hpast : at_ ≤ now := by simpa using hexpired
      simp [hpast.trans h]

theorem View.Shut.later {now later : Int} (h : now ≤ later) {view : View} {version : Codes}
    (hshut : view.Shut dates digest now version) : view.Shut dates digest later version :=
  hshut.imp id fun hseen => ⟨hseen.1, fun active hactive hkind hversion =>
    deadlineExpired_later h (hseen.2 active hactive hkind hversion)⟩

/-- What a movement of the window keeps, and what it opens anew. -/
structure Follows (dates : DateTimes) (digest : Codes → Codes) (now : Int) (at_ last : Standing) : Prop where
  claimedVersion : last.claimedVersion = at_.claimedVersion
  activated : last.activated = at_.activated
  bound : last.bound = at_.bound
  claiming : last.claiming = at_.claiming
  invalid : last.view.invalid = at_.view.invalid
  remembered : at_.Remembered dates digest → last.Remembered dates digest
  seen : ∃ opened, last.view.seen = at_.view.seen ++ opened ∧ ∀ d ∈ opened, at_.view.invalid = false ∧ d ∉ at_.view.seen
  shut : ∀ version, at_.view.Shut dates digest now version → last.view.Shut dates digest now version

theorem Follows.refl (now : Int) (at_ : Standing) : Follows dates digest now at_ at_ where
  claimedVersion := rfl
  activated := rfl
  bound := rfl
  claiming := rfl
  invalid := rfl
  remembered := id
  seen := ⟨[], (List.append_nil _).symm, fun _ h => absurd h List.not_mem_nil⟩
  shut _ := id

theorem Closes.follows {now : Int} {version : Codes} {at_ last : Standing} (h : Closes digest version at_ last) :
    Follows dates digest now at_ last := by
  cases h with
  | kept => exact Follows.refl now at_
  | closed state active file hstate hactive hvalid hfile =>
    have hseen : View.seen ⟨some { state with active := none }, false⟩ = at_.view.seen := by
      rw [View.seen, View.seen, hstate]
      rfl
    exact {
      claimedVersion := rfl
      activated := rfl
      bound := rfl
      claiming := rfl
      invalid := hvalid.symm
      remembered := fun h => h.set DeadlineState.Remembered.close rfl hfile
      seen := ⟨[], by rw [List.append_nil]; exact hseen, fun _ h => absurd h List.not_mem_nil⟩
      shut := by
        rintro version (hinvalid | ⟨hmem, -⟩)
        · rw [hvalid] at hinvalid
          cases hinvalid
        · exact .inr ⟨hseen ▸ hmem, fun active hactive => by cases hactive⟩ }

theorem Opens.seen {now : Int} {kind : HandoverKind} {d : Codes} {at_ last : Standing}
    (h : Opens dates now kind d at_ last) : last.view.seen = at_.view.seen ++ if kind = .recovery then [d] else [] := by
  obtain ⟨-, -, file, -, rfl⟩ := h
  unfold View.seen DeadlineState.open
  cases kind <;> cases at_.view.state <;> simp [openedDeadline]

theorem Opens.follows {now : Int} {kind : HandoverKind} {d : Codes} {at_ last : Standing}
    (h : Opens dates now kind d at_ last) : Follows dates digest now at_ last := by
  have hseen := h.seen
  have hsame := h.same
  have hfresh : ∀ d' ∈ (if kind = .recovery then [d] else []), d' ∉ at_.view.seen := by
    intro d' hmem
    split_ifs at hmem with hkind
    · rw [List.mem_singleton.1 hmem]
      exact h.fresh hkind
    · cases hmem
  obtain ⟨hvalid, -, file, hfile, hlast⟩ := h
  refine ⟨hsame.1, hsame.2.1, hsame.2.2.1, hsame.2.2.2, ?_, ?_, ⟨_, hseen, fun d' hmem => ⟨hvalid, hfresh d' hmem⟩⟩, ?_⟩
  · rw [hlast, hvalid]
  · intro hremembered
    rw [hlast]
    exact hremembered.set (DeadlineState.Remembered.open _) rfl hfile
  · rintro version (hinvalid | ⟨hmem, -⟩)
    · rw [hvalid] at hinvalid
      cases hinvalid
    · refine .inr ⟨by rw [hseen]; exact List.mem_append_left _ hmem, ?_⟩
      intro active hactive hkind hversion
      rw [hlast] at hactive
      cases hactive
      have hrecovery : kind = .recovery := hkind
      have hd : d = digest version := hversion
      refine absurd hmem ?_
      rw [← hd]
      exact hfresh d (by simp [hrecovery])

theorem Moves.follows {now : Int} {version : Codes} {at_ last : Standing} (h : Moves dates digest now version at_ last) :
    Follows dates digest now at_ last := by
  obtain rfl | hcloses | ⟨kind, d, hopens⟩ := h
  · exact Follows.refl now _
  · exact hcloses.follows
  · exact hopens.follows

theorem Offered.follows {now : Int} {admins : Nat} {version : Codes} {at_ last : Standing}
    (h : Offered dates digest now admins version at_ last) : Follows dates digest now at_ last := by
  obtain rfl | ⟨-, hopens⟩ := h.moved
  · exact Follows.refl now _
  · exact hopens.follows

/-- A window that matches and has not expired keeps a version from being shut. -/
theorem not_shut_of_hasWindow {now : Int} {version : Codes} {at_ : Standing}
    (h : at_.HasWindow dates digest now true version) : ¬ at_.view.Shut dates digest now version := by
  obtain ⟨hvalid, active, hactive, hmatches, hlive⟩ := h
  rintro (hinvalid | ⟨-, hexpired⟩)
  · rw [hvalid] at hinvalid
    cases hinvalid
  · obtain ⟨hkind, hversion⟩ : active.kind = .recovery ∧ active.versionSha256 = digest version := by
      simpa [Deadline.matches, desiredKind, desiredVersion] using hmatches
    rw [hexpired active hactive hkind hversion] at hlive
    cases hlive

/-- A claim of a shut version, other than the claimed one, is not offered while the web application is
activated. -/
theorem offers_of_shut {now : Int} {admins : Nat} {version : Codes} {at_ : Standing} (hadmins : admins > 0)
    (hother : version ≠ at_.claimedVersion) (hshut : at_.view.Shut dates digest now version)
    (hdecided : at_.activated = true ∨ at_.view.invalid = true ∨ at_.matching .recovery (digest version) = true) :
    at_.offers dates digest now admins version = false := by
  have hrecovers : at_.recovers admins version = true := by simp [Standing.recovers, hadmins, hother]
  cases hmatching : at_.matching .recovery (digest version) with
  | true =>
    have hclosed : (!at_.expired dates now && !at_.view.invalid) = false := by
      by_contra hopen
      obtain ⟨hlive, hvalid⟩ : at_.expired dates now = false ∧ at_.view.invalid = false := by simpa using hopen
      exact not_shut_of_hasWindow (hasWindow_of_matching hmatching hlive hvalid) hshut
    unfold Standing.offers
    simpa [hrecovers, desiredKind, desiredVersion, hmatching] using hclosed
  | false =>
    rw [hmatching] at hdecided
    unfold Standing.offers
    cases hvalid : at_.view.invalid with
    | true => simp [hrecovers, desiredKind, desiredVersion, hmatching]
    | false =>
      have hactivated : at_.activated = true := by simpa [hvalid] using hdecided
      have hseen : digest version ∈ at_.view.seen := by
        rcases hshut with hinvalid | hshut
        · rw [hvalid] at hinvalid
          cases hinvalid
        · exact hshut.1
      simp [hrecovers, desiredKind, desiredVersion, hmatching, hactivated, hseen]

/-- The claimed version is not offered again. -/
theorem offers_claimed {now : Int} {admins : Nat} {at_ : Standing} (hadmins : admins > 0) :
    at_.offers dates digest now admins at_.claimedVersion = false := by
  have hrecovers : at_.recovers admins at_.claimedVersion = false := by simp [Standing.recovers]
  unfold Standing.offers
  simp [hrecovers, hadmins]

/-! ## A claim that begins -/

theorem claim_view (at_ : Standing) (version : Codes) : (at_.claim version).view = at_.view := by
  unfold Standing.claim
  split_ifs <;> rfl

theorem Closes.seen {version : Codes} {at_ last : Standing} (h : Closes digest version at_ last) :
    last.view.seen = at_.view.seen := by
  cases h with
  | kept => rfl
  | closed state active file hstate =>
    rw [View.seen, View.seen, hstate]
    rfl

theorem claim_file (at_ : Standing) (version : Codes) : (at_.claim version).file = at_.file := by
  unfold Standing.claim
  split_ifs <;> rfl

/-- A claim that begins moves the window, and may then take the version and close it. -/
theorem Begun.follows {now : Int} {admins : Nat} {version : Codes} {at_ last : Standing}
    (h : Begun dates digest now admins version at_ last) : ∃ mid claimed, Offered dates digest now admins version at_ mid ∧
      (claimed = mid ∨ claimed = mid.claim version) ∧ claimed.view = mid.view ∧ Follows dates digest now claimed last ∧
      last.view.seen = mid.view.seen := by
  obtain ⟨mid, hoffered, rfl | rfl | hcloses⟩ := h
  · exact ⟨_, _, hoffered, .inl rfl, rfl, Follows.refl now _, rfl⟩
  · exact ⟨mid, _, hoffered, .inr rfl, claim_view mid version, Follows.refl now _, by rw [claim_view]⟩
  · exact ⟨mid, _, hoffered, .inr rfl, claim_view mid version, hcloses.follows, by rw [hcloses.seen, claim_view]⟩

/-- The other versions that are shut once a claim of a version has begun. -/
theorem Begun.shut {now : Int} {admins : Nat} {version v : Codes} {at_ last : Standing}
    (h : Begun dates digest now admins version at_ last)
    (hshut : at_.view.Shut dates digest now v ∨ (at_.activated = true ∧ at_.recovers admins version = true ∧
      digest v ∈ at_.view.seen ∧ digest v ≠ digest version)) :
    last.view.Shut dates digest now v := by
  obtain ⟨mid, claimed, hoffered, -, hview, hfollows, -⟩ := h.follows
  refine hfollows.shut v ?_
  rw [hview]
  rcases hshut with hshut | ⟨hactivated, hrecovers, hseen, hother⟩
  · exact hoffered.follows.shut v hshut
  · obtain ⟨-, active, hactive, hmatches, -⟩ := hoffered.window hactivated
    obtain ⟨opened, happend, -⟩ := hoffered.follows.seen
    refine .inr ⟨by rw [happend]; exact List.mem_append_left _ hseen, fun found hfound _ hversion => ?_⟩
    rw [hactive, Option.some.injEq] at hfound
    subst hfound
    have hactive : active.versionSha256 = digest version := by
      rw [hrecovers] at hmatches
      have := (Bool.and_eq_true_iff.1 hmatches).2
      simpa [desiredVersion] using this
    exact absurd (hversion.symm.trans hactive) hother

/-- A recovery that succeeds is shut. -/
theorem Succeeds.shut {now : Int} {admins : Nat} {version : Codes} {at_ last : Standing}
    (h : Succeeds dates digest now admins version at_ last) (hremembered : at_.Remembered dates digest)
    (hactivated : at_.activated = true) (hrecovers : at_.recovers admins version = true) :
    last.view.Shut dates digest now version := by
  obtain ⟨mid, hoffered, hcloses⟩ := h
  obtain ⟨hvalid, active, hactive, hmatches, -⟩ := hoffered.window hactivated
  obtain ⟨hkind, hversion⟩ : active.kind = .recovery ∧ active.versionSha256 = digest version := by
    rw [hrecovers] at hmatches
    simpa [Deadline.matches, desiredKind, desiredVersion] using hmatches
  have hseen : digest version ∈ last.view.seen := by
    rw [hcloses.seen, claim_view]
    obtain ⟨state, hstate, hsome⟩ := Option.bind_eq_some_iff.1 hactive
    rw [View.seen, hstate, ← hversion]
    exact (hoffered.follows.remembered hremembered).view state hstate active hsome hkind
  refine .inr ⟨hseen, fun found hfound => ?_⟩
  rw [← claim_view mid version] at hactive hvalid
  cases hcloses with
  | kept hnone =>
    refine absurd ?_ (hnone active hactive hvalid)
    rw [hkind, hversion]
    rfl
  | closed => cases hfound

/-! ## The invariant -/

/-- Every version granted so far is the claimed one or shut, and the recoveries opened so far are
remembered. -/
structure Safe (dates : DateTimes) (digest : Codes → Codes) (now : Int) (at_ : Standing) (granted opened : List Codes) :
    Prop where
  idle : at_.claiming = false
  remembered : at_.Remembered dates digest
  granted : ∀ v ∈ granted, v = at_.claimedVersion ∨ at_.view.Shut dates digest now v
  opened : ∀ d ∈ opened, at_.view.invalid = true ∨ d ∈ at_.view.seen

/-- What a step opens in memory. -/
def newlyOpened (at_ last : Standing) : List Codes := last.view.seen.drop at_.view.seen.length

theorem Safe.later {now later : Int} (hlater : now ≤ later) {at_ : Standing} {granted opened : List Codes}
    (h : Safe dates digest now at_ granted opened) : Safe dates digest later at_ granted opened where
  idle := h.idle
  remembered := h.remembered
  granted v hv := (h.granted v hv).imp id fun hshut => hshut.later hlater
  opened := h.opened

/-- No recovery is opened twice. -/
theorem Safe.fresh {now : Int} {at_ last : Standing} {granted opened : List Codes}
    (h : Safe dates digest now at_ granted opened) (hfollows : Follows dates digest now at_ last) :
    ∀ d ∈ newlyOpened at_ last, d ∉ opened := by
  obtain ⟨new, happend, hnew⟩ := hfollows.seen
  intro d hmem hopened
  rw [newlyOpened, happend, List.drop_left] at hmem
  obtain ⟨hvalid, hunseen⟩ := hnew d hmem
  rcases h.opened d hopened with hinvalid | hseen
  · rw [hvalid] at hinvalid
    cases hinvalid
  · exact hunseen hseen

theorem Safe.follows {now : Int} {at_ last : Standing} {granted opened : List Codes}
    (h : Safe dates digest now at_ granted opened) (hfollows : Follows dates digest now at_ last) :
    Safe dates digest now last granted (opened ++ newlyOpened at_ last) where
  idle := hfollows.claiming.trans h.idle
  remembered := hfollows.remembered h.remembered
  granted v hv := by
    rw [hfollows.claimedVersion]
    exact (h.granted v hv).imp id (hfollows.shut v)
  opened d hd := by
    obtain ⟨new, happend, hnew⟩ := hfollows.seen
    rw [hfollows.invalid, happend]
    rcases List.mem_append.1 hd with hold | hnewly
    · exact (h.opened d hold).imp id (List.mem_append_left _)
    · rw [newlyOpened, happend, List.drop_left] at hnewly
      exact .inr (List.mem_append_right _ hnewly)

/-- When a claim that is offered keeps the invariant: the claimed version that it replaces is shut or stays so,
in a process bound to a completed migration the new version is shut by the claim, and a version that was granted
is not offered without a window. -/
structure Standing.Claimable (dates : DateTimes) (digest : Codes → Codes) (now : Int) (admins : Nat) (granted : List Codes)
    (version : Codes) (at_ : Standing) : Prop where
  replaced : at_.bound = [] → at_.claimedVersion ∈ granted → version ≠ at_.claimedVersion →
    at_.view.Shut dates digest now at_.claimedVersion ∨ (at_.activated = true ∧ digest at_.claimedVersion ∈ at_.view.seen ∧
      digest at_.claimedVersion ≠ digest version)
  bound : at_.bound ≠ [] → version = at_.claimedVersion ∨ at_.view.Shut dates digest now version ∨
    (at_.activated = true ∧ admins > 0)
  again : version ∈ granted → version ≠ at_.claimedVersion →
    at_.activated = true ∨ at_.view.invalid = true ∨ at_.matching .recovery (digest version) = true

theorem Begun.claimedVersion {now : Int} {admins : Nat} {version : Codes} {at_ last : Standing}
    (h : Begun dates digest now admins version at_ last) :
    last.claimedVersion = at_.claimedVersion ∨ (at_.bound = [] ∧ last.claimedVersion = version) := by
  obtain ⟨mid, claimed, hoffered, hclaimed, -, hfollows, -⟩ := h.follows
  rw [hfollows.claimedVersion, ← hoffered.same.1, ← hoffered.same.2.2.1]
  rcases hclaimed with rfl | rfl
  · exact .inl rfl
  · unfold Standing.claim
    split_ifs with hbound
    · exact .inr ⟨hbound, rfl⟩
    · exact .inl rfl

theorem Begun.remembered {now : Int} {admins : Nat} {version : Codes} {at_ last : Standing}
    (h : Begun dates digest now admins version at_ last) (hremembered : at_.Remembered dates digest) :
    last.Remembered dates digest := by
  obtain ⟨mid, claimed, hoffered, hclaimed, hview, hfollows, -⟩ := h.follows
  have hmid := hoffered.follows.remembered hremembered
  refine hfollows.remembered ⟨hview ▸ hmid.view, ?_⟩
  rcases hclaimed with rfl | rfl
  · exact hmid.file
  · rw [claim_file]
    exact hmid.file

theorem Begun.claiming {now : Int} {admins : Nat} {version : Codes} {at_ last : Standing}
    (h : Begun dates digest now admins version at_ last) : last.claiming = at_.claiming := by
  obtain ⟨mid, claimed, hoffered, hclaimed, -, hfollows, -⟩ := h.follows
  rw [hfollows.claiming, ← hoffered.same.2.2.2]
  rcases hclaimed with rfl | rfl
  · rfl
  · exact Standing.claim_claiming mid version

theorem Safe.begun {now : Int} {admins : Nat} {version : Codes} {at_ last : Standing} {granted opened : List Codes}
    (h : Safe dates digest now at_ granted opened) (hadmins : granted ≠ [] → admins > 0)
    (hclaimable : at_.Claimable dates digest now admins granted version)
    (hbegun : Begun dates digest now admins version at_ last) :
    Safe dates digest now last granted (opened ++ newlyOpened at_ last) ∧ ∀ d ∈ newlyOpened at_ last, d ∉ opened := by
  obtain ⟨mid, claimed, hoffered, -, hview, hfollows, hseen⟩ := hbegun.follows
  have hnew : newlyOpened at_ last = newlyOpened at_ mid := by rw [newlyOpened, newlyOpened, hseen]
  have hmid := h.follows hoffered.follows
  rw [hnew]
  refine ⟨⟨hbegun.claiming.trans h.idle, hbegun.remembered h.remembered, fun v hv => ?_, fun d hd => ?_⟩,
    h.fresh hoffered.follows⟩
  · rcases h.granted v hv with rfl | hshut
    · rcases hbegun.claimedVersion with hsame | ⟨hbound, hnewer⟩
      · exact .inl hsame.symm
      · by_cases hother : version = at_.claimedVersion
        · exact .inl (hnewer.trans hother).symm
        · refine .inr (hbegun.shut ((hclaimable.replaced hbound hv hother).imp id fun ⟨hactivated, hmem, hdigest⟩ => ?_))
          have hrecovers : at_.recovers admins version = true := by
            simp [Standing.recovers, hadmins (List.ne_nil_of_mem hv), hother]
          exact ⟨hactivated, hrecovers, hmem, hdigest⟩
    · exact .inr (hbegun.shut (.inl hshut))
  · rw [hfollows.invalid, hview, hseen]
    exact hmid.opened d hd

theorem Succeeds.begun {now : Int} {admins : Nat} {version : Codes} {at_ last : Standing}
    (h : Succeeds dates digest now admins version at_ last) : Begun dates digest now admins version at_ last := by
  obtain ⟨mid, hoffered, hcloses⟩ := h
  exact ⟨mid, hoffered, .inr (.inr hcloses)⟩

theorem Succeeds.claimedVersion {now : Int} {admins : Nat} {version : Codes} {at_ last : Standing}
    (h : Succeeds dates digest now admins version at_ last) :
    last.claimedVersion = if at_.bound = [] then version else at_.claimedVersion := by
  obtain ⟨mid, hoffered, hcloses⟩ := h
  rw [hcloses.same.1, ← hoffered.same.1, ← hoffered.same.2.2.1]
  unfold Standing.claim
  split_ifs <;> rfl

theorem Safe.succeeds {now : Int} {admins : Nat} {version : Codes} {at_ last : Standing} {granted opened : List Codes}
    (h : Safe dates digest now at_ granted opened) (hadmins : granted ≠ [] → admins > 0)
    (hclaimable : at_.Claimable dates digest now admins granted version)
    (hsucceeds : Succeeds dates digest now admins version at_ last) :
    Safe dates digest now last (granted ++ [version]) (opened ++ newlyOpened at_ last) := by
  obtain ⟨hsafe, -⟩ := h.begun hadmins hclaimable hsucceeds.begun
  refine ⟨hsafe.idle, hsafe.remembered, fun v hv => ?_, hsafe.opened⟩
  rcases List.mem_append.1 hv with hold | hlast
  · exact hsafe.granted v hold
  · obtain rfl := List.mem_singleton.1 hlast
    rw [hsucceeds.claimedVersion]
    split_ifs with hbound
    · exact .inl rfl
    · rcases hclaimable.bound hbound with hsame | hshut | ⟨hactivated, hsome⟩
      · exact .inl hsame
      · exact .inr (hsucceeds.begun.shut (.inl hshut))
      · by_cases hsame : v = at_.claimedVersion
        · exact .inl hsame
        · refine .inr (hsucceeds.shut h.remembered hactivated ?_)
          simp [Standing.recovers, hsome, hsame]

/-- What is granted was not granted before. -/
theorem Safe.first {now : Int} {admins : Nat} {version : Codes} {at_ : Standing} {granted opened : List Codes}
    (h : Safe dates digest now at_ granted opened) (hadmins : admins > 0)
    (hclaimable : at_.Claimable dates digest now admins granted version)
    (hoffers : at_.offers dates digest now admins version = true) : version ∉ granted := by
  intro hgranted
  have hrefused : at_.offers dates digest now admins version = false := by
    rcases h.granted version hgranted with rfl | hshut
    · exact offers_claimed hadmins
    · by_cases hsame : version = at_.claimedVersion
      · rw [hsame]
        exact offers_claimed hadmins
      · exact offers_of_shut hadmins hsame hshut (hclaimable.again hgranted hsame)
  rw [hrefused] at hoffers
  cases hoffers

end

end SeedSync.Auth
