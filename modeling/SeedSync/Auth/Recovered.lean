import SeedSync.Auth.Frame

/-!
# A claim is all or nothing

What a recovery of the journal leaves is fixed when a claim is cut off, wherever that is, and stays so
through recoveries that are cut off themselves. An abort brings back the files and most fields.
-/

namespace SeedSync.Auth

open Lib Program

/-! ## What a recovery leaves -/

/-- The files that a claim changes. -/
structure AuthFiles where
  store : Option Doc
  history : Option History
  marker : Option Doc

def Files.auth (files : Files) : AuthFiles := ⟨files.store, files.history, files.marker⟩

def Journal.auth (journal : Journal) : AuthFiles := ⟨journal.store, journal.history, journal.marker⟩

/-- What a recovery leaves of the files. -/
def Files.settled (files : Files) : AuthFiles :=
  match files.journal with
  | none => files.auth
  | some journal => if journal.committed then files.auth else journal.auth

def artifacts : List Target := [.store, .history, .marker]

/-- The file is as the journal has it. -/
def Journal.Has (journal : Journal) (files : Files) : Target → Prop
  | .store => files.store = journal.store
  | .history => files.history = journal.history
  | .marker => files.marker = journal.marker
  | _ => True

theorem Journal.has_restore (journal : Journal) (files : Files) (target : Target) :
    journal.Has (journal.restore target files) target := by
  cases target <;> simp [Journal.restore, Journal.Has]

theorem Journal.Has.restore {journal : Journal} {files : Files} {other : Target} (h : journal.Has files other)
    (target : Target) : journal.Has (journal.restore target files) other := by
  cases target <;> cases other <;> simp_all [Journal.restore, Journal.Has]

theorem Journal.has_of_absent {journal : Journal} {files : Files} {target : Target} (h : journal.absent target files = true) :
    journal.Has files target := by
  cases target <;> simp_all [Journal.absent, Journal.Has]

theorem Journal.auth_eq {journal : Journal} {files : Files} (h : ∀ target ∈ artifacts, journal.Has files target) :
    files.auth = journal.auth := by
  have hstore : files.store = journal.store := h .store (by decide)
  have hhistory : files.history = journal.history := h .history (by decide)
  have hmarker : files.marker = journal.marker := h .marker (by decide)
  simp [Files.auth, Journal.auth, hstore, hhistory, hmarker]

/-- What a restored file leaves as it is. -/
theorem restore_frame (journal : Journal) (target : Target) (files : Files) :
    (journal.restore target files).journal = files.journal ∧ (journal.restore target files).deadline = files.deadline := by
  cases target <;> exact ⟨rfl, rfl⟩

/-- A recovery that has restored all but the files of `rest`; `calm` tells that its steps do not fail. -/
structure Restoring (w : World) (calm : Prop) (journal : Journal) (rest : List Target) (m : Machine Target World) : Prop where
  calm : calm → m.Calm
  store : m.world.store = w.store
  deadline : m.world.files.deadline = w.files.deadline
  prepared : m.world.files.journal = some journal
  restored : ∀ target ∈ artifacts, target ∈ rest ∨ journal.Has m.world.files target

variable {w : World} {calm : Prop} {journal : Journal}

theorem Restoring.step {target : Target} {rest : List Target} {m : Machine Target World}
    (h : Restoring w calm journal (target :: rest) m) :
    Restoring w calm journal rest { m.advance target with world := { m.world with files := journal.restore target m.world.files } } := by
  obtain ⟨hjournal, hdeadline⟩ := restore_frame journal target m.world.files
  refine ⟨fun hcalm => (h.calm hcalm).advance target, h.store, hdeadline.trans h.deadline, hjournal.trans h.prepared,
    fun other hother => ?_⟩
  rcases h.restored other hother with hmem | hhas
  · rcases List.mem_cons.1 hmem with rfl | hmem
    · exact .inr (journal.has_restore m.world.files other)
    · exact .inl hmem
  · exact .inr (hhas.restore target)

theorem not_calm {m : Machine Target World} (h : calm → m.Calm) {target : Target} {outcome : Outcome}
    (hnext : m.next target = outcome) (hne : outcome ≠ .done) : ¬ calm := fun hcalm =>
  hne (hnext.symm.trans ((h hcalm).next target))

/-- One file is restored, or the recovery ends with the journal in place. -/
theorem restoreArtifact_triple (target : Target) (rest : List Target) :
    Triple (Restoring w calm journal (target :: rest)) (restoreArtifact journal target)
      (fun _ => Restoring w calm journal rest) (fun m => m.world.files.journal = some journal ∧ ¬ calm) := by
  unfold restoreArtifact
  refine Triple.read_bind fun m hm => ?_
  split_ifs with habsent
  · refine Triple.pure ?_
    rintro m' rfl
    refine ⟨hm.calm, hm.store, hm.deadline, hm.prepared, fun other hother => ?_⟩
    rcases hm.restored other hother with hmem | hhas
    · rcases List.mem_cons.1 hmem with rfl | hmem
      · exact .inr (Journal.has_of_absent habsent)
      · exact .inl hmem
    · exact .inr hhas
  · refine Triple.act ?_ ?_ ?_ ?_
    · rintro m' rfl
      exact hm.step
    · rintro m' rfl hnext
      exact ⟨hm.prepared, not_calm hm.calm hnext (by simp)⟩
    · rintro m' rfl hnext
      exact ⟨hm.step.prepared, not_calm hm.calm hnext (by simp)⟩
    · rintro m' n rfl hnext
      exact ⟨hm.prepared, not_calm hm.calm hnext (by simp)⟩

/-- What a recovery that returns has done. -/
structure Recovered (w : World) (m : Machine Target World) : Prop where
  store : m.world.store = w.store
  deadline : m.world.files.deadline = w.files.deadline
  journal : m.world.files.journal = none
  auth : m.world.files.auth = w.files.settled

/-- A recovery, cut off or not, keeps what recoveries leave. When it returns it has left it, and it returns
when none of its steps fails. -/
theorem recover_triple (w : World) (calm : Prop) {order : List Target} (horder : ∀ target ∈ artifacts, target ∈ order) :
    Triple (fun m => m.world = w ∧ (calm → m.Calm)) (recoverCompletedMigrationClaimJournal order) (fun _ => Recovered w)
      (fun m => m.world.files.settled = w.files.settled ∧ ¬ calm) := by
  unfold recoverCompletedMigrationClaimJournal
  refine Triple.read_bind fun m hm => ?_
  obtain ⟨rfl, hcalm⟩ := hm
  cases hjournal : m.world.files.journal with
  | none =>
    simp only [id_eq, hjournal]
    refine Triple.pure ?_
    rintro m' rfl
    exact ⟨rfl, rfl, hjournal, by simp [Files.settled, hjournal]⟩
  | some journal =>
    simp only [id_eq, hjournal]
    refine Triple.rescue (F := fun m' => m'.world.files.settled = m.world.files.settled ∧ ¬ calm) ?_
      (fun _ => Triple.raise fun _ h => h) fun _ h => h
    by_cases hcommitted : journal.committed = true
    · have hsettled : m.world.files.settled = m.world.files.auth := by simp [Files.settled, hjournal, hcommitted]
      rw [if_pos hcommitted]
      refine Triple.bind (Q := fun _ => Recovered m.world) ?_ fun _ => Triple.pure fun _ h => h
      unfold clearCompletedMigrationClaimJournal
      refine Triple.read_bind fun m' hm' => ?_
      subst hm'
      rw [id_eq, if_neg (by simp [hjournal])]
      refine Triple.act ?_ ?_ ?_ ?_
      · rintro m'' rfl
        exact ⟨rfl, rfl, rfl, hsettled.symm⟩
      · rintro m'' rfl hnext
        exact ⟨rfl, not_calm hcalm hnext (by simp)⟩
      · rintro m'' rfl hnext
        exact ⟨hsettled.symm, not_calm hcalm hnext (by simp)⟩
      · rintro m'' n rfl hnext
        exact ⟨rfl, not_calm hcalm hnext (by simp)⟩
    · have hsettled : m.world.files.settled = journal.auth := by simp [Files.settled, hjournal, hcommitted]
      rw [if_neg hcommitted]
      have hkept : ∀ m' : Machine Target World, m'.world.files.journal = some journal →
          m'.world.files.settled = m.world.files.settled := by
        intro m' hprepared
        rw [hsettled]
        simp [Files.settled, hprepared, hcommitted]
      refine Triple.bind (Q := fun _ => Restoring m.world calm journal []) ?_ fun _ => ?_
      · refine (Triple.forM (P := Restoring m.world calm journal) restoreArtifact_triple order).conseq ?_ (fun _ _ h => h)
          fun m' h => ⟨hkept m' h.1, h.2⟩
        rintro m' rfl
        exact ⟨hcalm, rfl, rfl, hjournal, fun target htarget => .inl (horder target htarget)⟩
      · have hdone : ∀ m', Restoring m.world calm journal [] m' → m'.world.files.auth = journal.auth := fun m' h =>
          Journal.auth_eq fun target htarget => (h.restored target htarget).resolve_left (by simp)
        refine Triple.bind (Q := fun _ => Recovered m.world) (Triple.act ?_ ?_ ?_ ?_) fun _ => Triple.pure fun _ h => h
        · exact fun m' h => ⟨h.store, h.deadline, rfl, (hdone m' h).trans hsettled.symm⟩
        · exact fun m' h hnext => ⟨hkept m' h.prepared, not_calm h.calm hnext (by simp)⟩
        · exact fun m' h hnext => ⟨(hdone m' h).trans hsettled.symm, not_calm h.calm hnext (by simp)⟩
        · exact fun m' n h hnext => ⟨hkept m' h.prepared, not_calm h.calm hnext (by simp)⟩

/-! ## Recoveries that are cut off -/

/-- A recovery in a process of its own, and how its steps end. -/
structure Recovery where
  order : List Target
  outcomes : Target → List Outcome

def Recovery.run (recovery : Recovery) (w : World) : World :=
  ((recoverCompletedMigrationClaimJournal recovery.order).run.run ⟨w, recovery.outcomes⟩).2.world

def runRecoveries (w : World) (recoveries : List Recovery) : World := recoveries.foldl (fun w recovery => recovery.run w) w

/-- Each of the three names is in the order of every recovery. -/
def Recovery.Complete (recovery : Recovery) : Prop := ∀ target ∈ artifacts, target ∈ recovery.order

theorem Recovered.settled {m : Machine Target World} (h : Recovered w m) : m.world.files.settled = w.files.settled := by
  rw [Files.settled, h.journal, h.auth]

theorem Recovery.settled_run {recovery : Recovery} (h : recovery.Complete) (w : World) :
    (recovery.run w).files.settled = w.files.settled := by
  have htriple : Triple (fun m => m = ⟨w, recovery.outcomes⟩) (recoverCompletedMigrationClaimJournal recovery.order)
      (fun _ m => m.world.files.settled = w.files.settled) (fun m => m.world.files.settled = w.files.settled) :=
    (recover_triple w False h).conseq
    (by rintro m rfl; exact ⟨rfl, False.elim⟩) (fun _ _ h => h.settled) fun _ h => h.1
  exact htriple.run rfl

theorem settled_runRecoveries {recoveries : List Recovery} (h : ∀ recovery ∈ recoveries, recovery.Complete) (w : World) :
    (runRecoveries w recoveries).files.settled = w.files.settled := by
  induction recoveries generalizing w with
  | nil => rfl
  | cons recovery recoveries ih =>
    refine (ih (fun r hr => h r (List.mem_cons_of_mem _ hr)) (recovery.run w)).trans ?_
    exact Recovery.settled_run (h recovery List.mem_cons_self) w

/-- A recovery whose steps do not fail leaves it, without a journal. -/
theorem Recovery.run_calm {order : List Target} (h : ∀ target ∈ artifacts, target ∈ order) (w : World) :
    (Recovery.run ⟨order, fun _ => []⟩ w).files.journal = none ∧
      (Recovery.run ⟨order, fun _ => []⟩ w).files.auth = w.files.settled := by
  have htriple : Triple (fun m => m = ⟨w, fun _ => []⟩) (recoverCompletedMigrationClaimJournal order)
      (fun _ m => m.world.files.journal = none ∧ m.world.files.auth = w.files.settled)
      (fun m => m.world.files.journal = none ∧ m.world.files.auth = w.files.settled) :=
    (recover_triple w True h).conseq (by rintro m rfl; exact ⟨rfl, fun _ _ => rfl⟩)
      (fun _ m h => ⟨h.journal, h.auth⟩) fun _ h => absurd True.intro h.2
  exact htriple.run rfl

end SeedSync.Auth
