import SeedSync.Auth.Preclaim

/-!
# What an unclaimed process writes

The store of a process that never claims holds at most a proof. Its entries are words of the
grammar, as long as only one proof is opened before there is a store.
-/

namespace SeedSync.Auth

open Lib Program

section Entries

variable (dates : DateTimes) (now : Int)

/-! ## The kinds of the entries -/

theorem entry_historyLine (kind : HistoryKind) (event reason : String) {details : List (Codes × Json)}
    (hne : details ≠ []) :
    completedMigrationHistoryEntry dates (historyLine dates now event (codes reason) details) kind =
      (decide (kind.event = event) && decide (kind.reason = reason) && kind.detailsOk dates (.obj details)) := by
  obtain ⟨d, ds, rfl⟩ := List.exists_cons_of_ne_nil hne
  cases kind <;>
    simp [completedMigrationHistoryEntry, historyLine, hasKeys, hasField, field, isStr, valid_utc, HistoryKind.detailsOk,
      eq_comm]

theorem entry_historyLine_nil (kind : HistoryKind) (event reason : String) :
    completedMigrationHistoryEntry dates (historyLine dates now event (codes reason) []) kind =
      (decide (kind = .expiredProof) && decide (kind.event = event) && decide (kind.reason = reason)) := by
  cases kind <;>
    simp [completedMigrationHistoryEntry, historyLine, hasKeys, hasField, field, isStr, valid_utc, eq_comm]

/-- The entry of a proof that is opened. -/
def proofLine (expiresAt : Int) : Json :=
  historyLine dates now "bootstrap_proof_created" (codes "first_run_bootstrap_window_opened")
    [(codes "expires_at", .str (dates.utc expiresAt))]

def expiredLine : Json := historyLine dates now "bootstrap_proof_cleared" (codes "expired") []

/-- A snapshot of a store with nothing but a proof. -/
def emptySnapshot (proofPresent : Bool) : HistorySnapshot := ⟨0, 0, 0, 0, [], proofPresent, false⟩

def loadedLine : Json :=
  historyLine dates now "store_loaded" (codes "loaded_existing_store") (emptySnapshot false).details

def savedLine (proofPresent : Bool) : Json :=
  historyLine dates now "store_saved" (codes "persisted") (emptySnapshot proofPresent).details

theorem isEmptySnapshot_details (proofPresent wanted : Bool) :
    isEmptySnapshot (emptySnapshot proofPresent).details wanted = decide (proofPresent = wanted) := by
  cases proofPresent <;> cases wanted <;>
    simp [isEmptySnapshot, emptySnapshot, HistorySnapshot.details, hasKeys, hasField, field, isStr, Json.equalsNat]

theorem strict_historyLine (event reason : String) {details : List (Codes × Json)}
    (h : strict (.obj details) = true) : strict (historyLine dates now event (codes reason) details) = true := by
  cases details with
  | nil => simp [historyLine, strict, strictFields]
  | cons d ds => simpa [historyLine, strict, strictFields] using h

theorem strict_details (snapshot : HistorySnapshot) : strict (.obj snapshot.details) = true := by
  simp [HistorySnapshot.details, strict, strictFields]

variable (g : Grammar)

theorem read_proofLine (expiresAt : Int) :
    g.read dates (proofLine dates now expiresAt) = some { g with proofPresent := true, proofIssued := true } := by
  have hentry : completedMigrationHistoryEntry dates (proofLine dates now expiresAt) .proof = true := by
    rw [proofLine, entry_historyLine _ _ _ _ _ (by simp)]
    simp [HistoryKind.event, HistoryKind.reason, HistoryKind.detailsOk, hasKeys, hasField, field, valid_utc]
  rw [Grammar.read, if_pos hentry]

theorem read_expiredLine (hproof : g.proofPresent = true) :
    g.read dates (expiredLine dates now) = some { g with proofPresent := false } := by
  simp [Grammar.read, expiredLine, entry_historyLine_nil, HistoryKind.event, HistoryKind.reason, hproof]

theorem read_loadedLine (hsaved : g.storeSaved = true) :
    g.read dates (loadedLine dates now) = some { g with proofPresent := false } := by
  have hne : (emptySnapshot false).details ≠ [] := by simp [HistorySnapshot.details]
  simp [Grammar.read, loadedLine, entry_historyLine dates now _ _ _ hne, HistoryKind.event, HistoryKind.reason,
    HistoryKind.detailsOk, isEmptySnapshot_details, hsaved]

theorem read_savedLine (hissued : g.proofIssued = true) :
    g.read dates (savedLine dates now g.proofPresent) = some { g with storeSaved := true } := by
  have hne : (emptySnapshot g.proofPresent).details ≠ [] := by simp [HistorySnapshot.details]
  cases hproof : g.proofPresent with
  | false =>
    rw [hproof] at hne
    simp [Grammar.read, savedLine, entry_historyLine dates now _ _ _ hne, HistoryKind.event, HistoryKind.reason,
      HistoryKind.detailsOk, isEmptySnapshot_details, hissued, hproof]
  | true =>
    rw [hproof] at hne
    simp [Grammar.read, savedLine, entry_historyLine dates now _ _ _ hne, HistoryKind.event, HistoryKind.reason,
      HistoryKind.detailsOk, isEmptySnapshot_details, hproof]

end Entries

/-! ## The operations of an unclaimed process -/

section Runs

variable (dates : DateTimes) (now : Int)

theorem run_recordHistoryEvent {m : Machine Target World} (h : m.outcomes .history = []) (event : String)
    (reason : Codes) (details : List (Codes × Json)) :
    (recordHistoryEvent dates now event reason details).run.run m =
      (.ok (), { m with world := m.world.appendHistory (historyLine dates now event reason details) }) := by
  unfold recordHistoryEvent getStore
  rw [run_read_bind, run_rescue, run_act_of_nil h]

/-- The store of a process that has claimed nothing. -/
def unclaimed (proof : Option BootstrapRecord) (last : Option HistorySnapshot) : ApiKeyStore :=
  { bootstrapProof := proof, lastSavedHistorySnapshot := last }

/-- Whether a proof is kept by `__prune_bootstrap_proof`. -/
def live (proof : Option BootstrapRecord) : Bool :=
  proof.any fun record => isPast dates now record.expiresAt = some false

def livingProof (proof : Option BootstrapRecord) : Option BootstrapRecord := if live dates now proof then proof else none

/-- What `__prune_bootstrap_proof` leaves of the files. -/
def prunedFiles (proof : Option BootstrapRecord) (files : Files) : Files :=
  if proof.isSome && !live dates now proof then
    { files with history := appendHistory files.history (expiredLine dates now) }
  else files

variable {m : Machine Target World} {proof : Option BootstrapRecord} {last : Option HistorySnapshot}

theorem run_pruneBootstrapProof (h : m.outcomes .history = []) (hstore : m.world.store = unclaimed proof last) :
    (pruneBootstrapProof dates now).run.run m = (.ok (), { m with
      world := ⟨unclaimed (livingProof dates now proof) last, prunedFiles dates now proof m.world.files⟩ }) := by
  unfold pruneBootstrapProof getStore
  rw [run_read_bind, hstore]
  obtain ⟨⟨store, files⟩, outcomes⟩ := m
  subst hstore
  cases proof with
  | none => rfl
  | some record =>
    by_cases hpast : isPast dates now record.expiresAt = some false
    · simp only [unclaimed, hpast, if_true, livingProof, live, Option.any_some, decide_true, prunedFiles, Option.isSome_some,
        Bool.not_true, Bool.and_false, Bool.false_eq_true, if_false]
      rfl
    · simp only [unclaimed, hpast, if_false]
      unfold clearBootstrapProof getStore
      rw [run_read_bind]
      simp only [Option.isSome_some, if_true]
      unfold modifyStore
      rw [run_update_bind]
      refine (run_recordHistoryEvent dates now (by exact h) _ _ _).trans ?_
      simp [livingProof, live, hpast, prunedFiles, World.updateStore, World.appendHistory, expiredLine]

theorem run_pruneBootstrapExchange (hstore : m.world.store = unclaimed proof last) :
    (pruneBootstrapExchange dates now).run.run m = (.ok (), m) := by
  unfold pruneBootstrapExchange getStore
  rw [run_read_bind, hstore]
  rfl

theorem run_pruneExpiredUiSessions (hstore : m.world.store = unclaimed proof last) :
    (pruneExpiredUiSessions dates now).run.run m = (.ok (), m) := by
  obtain ⟨⟨store, files⟩, outcomes⟩ := m
  subst hstore
  rfl

/-- The file of a store without keys and sessions. -/
def emptyStoreDoc : Doc := Doc.indented (unclaimed none none).payload

theorem run_toStr (h : m.outcomes .history = []) (hstore : m.world.store = unclaimed proof last) :
    (toStr dates now).run.run m = (.ok (unclaimed none none).payload, { m with
      world := ⟨unclaimed (livingProof dates now proof) last, prunedFiles dates now proof m.world.files⟩ }) := by
  unfold toStr
  rw [run_bind_of_ok (run_pruneExpiredUiSessions dates now hstore),
    run_bind_of_ok (run_pruneBootstrapProof dates now h hstore), run_bind_of_ok (run_pruneBootstrapExchange dates now rfl)]
  rfl

/-- The history after a save that the store file took. -/
def savedFiles (proof : Option BootstrapRecord) (last : Option HistorySnapshot) (files : Files) : Files :=
  let pruned := { prunedFiles dates now proof files with store := some emptyStoreDoc }
  let present := (livingProof dates now proof).isSome
  if some (emptySnapshot present) = last then pruned
  else { pruned with history := appendHistory pruned.history (savedLine dates now present) }

theorem run_save (h : m.outcomes = fun _ => []) (hstore : m.world.store = unclaimed proof last) :
    ((save dates now).run.run m).2.world =
      ⟨unclaimed (livingProof dates now proof) (some (emptySnapshot (livingProof dates now proof).isSome)),
        savedFiles dates now proof last m.world.files⟩ := by
  have hhistory : m.outcomes .history = [] := by rw [h]
  have hfile : m.outcomes .store = [] := by rw [h]
  have hsnapshot : ∀ p l, (unclaimed p l).historySnapshot = emptySnapshot p.isSome := fun _ _ => rfl
  unfold save getStore
  rw [run_bind_of_ok (run_toStr dates now hhistory hstore), replace]
  rw [run_bind_of_ok (run_act_of_nil (by exact hfile) _ _ _), run_read_bind]
  simp only [hsnapshot]
  by_cases hsame : some (emptySnapshot (livingProof dates now proof).isSome) = last
  · simp only [unclaimed, hsame, ne_eq, not_true_eq_false, if_false, savedFiles, if_true]
    rfl
  · simp only [unclaimed, hsame, ne_eq, not_false_eq_true, if_true, savedFiles, if_false]
    rw [run_bind_of_ok (run_recordHistoryEvent dates now (by exact hhistory) _ _ _)]
    rfl

/-- A save whose write of the store fails. -/
theorem run_save_fails (hhistory : m.outcomes .history = []) (h : m.outcomes .store = [.fails])
    (hstore : m.world.store = unclaimed proof last) :
    ((save dates now).run.run m).2.world =
      ⟨unclaimed (livingProof dates now proof) last, prunedFiles dates now proof m.world.files⟩ := by
  unfold save
  rw [run_bind_of_ok (run_toStr dates now hhistory hstore), replace]
  have hfails : (act Target.store Error.os (fun w : World => { w with files.store := some (Doc.indented (unclaimed none none).payload) })
      fun _ w => w).run.run { m with
        world := ⟨unclaimed (livingProof dates now proof) last, prunedFiles dates now proof m.world.files⟩ } =
      (.error (.raised .os), Machine.advance { m with
        world := ⟨unclaimed (livingProof dates now proof) last, prunedFiles dates now proof m.world.files⟩ } .store) := by
    rw [run_act]
    have hnext : Machine.next { m with
        world := (⟨unclaimed (livingProof dates now proof) last, prunedFiles dates now proof m.world.files⟩ : World) }
        Target.store = .fails := by
      simp [Machine.next, h]
    rw [hnext]
    rfl
  rw [run_bind_of_error hfails]
  rfl

def ensuredProof (secret : Codes) (proof : Option BootstrapRecord) : Option BootstrapRecord :=
  if live dates now proof then proof else some (openedRecord dates now bootstrapProofTtl secret)

def ensuredFiles (proof : Option BootstrapRecord) (files : Files) : Files :=
  if live dates now proof then files
  else { files with
    history := appendHistory (prunedFiles dates now proof files).history (proofLine dates now (now + bootstrapProofTtl)) }

theorem run_ensureBootstrapProof (h : m.outcomes .history = []) (hstore : m.world.store = unclaimed proof last)
    (secret : Codes) : ((ensureBootstrapProof dates now secret).run.run m).2.world =
      ⟨unclaimed (ensuredProof dates now secret proof) last, ensuredFiles dates now proof m.world.files⟩ := by
  have hcount : ∀ p l, (unclaimed p l).activeAdminKeyCount = 0 := fun _ _ => rfl
  unfold ensureBootstrapProof getStore
  rw [run_bind_of_ok (run_pruneBootstrapProof dates now h hstore), run_bind_of_ok (run_pruneBootstrapExchange dates now rfl),
    run_read_bind]
  simp only [hcount, Nat.lt_irrefl, if_false, gt_iff_lt]
  by_cases hlive : live dates now proof = true
  · obtain ⟨record, rfl⟩ : ∃ record, proof = some record := by
      cases proof with
      | none => simp [live] at hlive
      | some record => exact ⟨record, rfl⟩
    simp only [livingProof, hlive, if_true, unclaimed, Option.isNone_some, Bool.false_eq_true, if_false, ensuredProof,
      ensuredFiles, prunedFiles, Bool.not_true, Bool.and_false]
    rfl
  · simp only [livingProof, hlive, if_false, unclaimed, Option.isNone_none, if_true, ensuredProof, ensuredFiles,
      Bool.false_eq_true]
    unfold modifyStore
    rw [run_update_bind, run_bind_of_ok (run_recordHistoryEvent dates now (by exact h) _ _ _)]
    have hfiles : ∀ files : Files, prunedFiles dates now proof files =
        { files with history := (prunedFiles dates now proof files).history } := by
      intro files
      unfold prunedFiles
      split_ifs <;> rfl
    rw [hfiles m.world.files]
    rfl

theorem load_emptyStoreDoc : fromStr emptyStoreDoc.value = some (unclaimed none none) := by
  simp [emptyStoreDoc, Doc.indented, ApiKeyStore.payload, unclaimed, fromStr, versionField, hasField, field,
    optionalStringField, optionalString, listField]

theorem run_load {backupPath : Codes} (h : m.outcomes .history = []) :
    (m.world.files.store = none →
      ((load dates now backupPath).run.run m).2.world = ⟨unclaimed none none, m.world.files⟩) ∧
    (m.world.files.store = some emptyStoreDoc →
      ((load dates now backupPath).run.run m).2.world = ⟨unclaimed none none,
        { m.world.files with history := appendHistory m.world.files.history (loadedLine dates now) }⟩) := by
  unfold load
  rw [run_read_bind]
  constructor
  · intro hnone
    simp only [id_eq, hnone]
    rfl
  · intro hsome
    simp only [id_eq, hsome, load_emptyStoreDoc]
    unfold modifyStore
    rw [run_update_bind, run_recordHistoryEvent dates now (by exact h), ← hsome]
    rfl

end Runs

/-! ## The history as the grammar reads it -/

section Scans

variable (dates : DateTimes)

/-- The grammar reads the history to its end and stands at `g`. -/
def Scans (files : Files) (g : Grammar) : Prop :=
  (files.history.getD {}).torn = false ∧
    ∃ entries : List Json, (files.history.getD {}).lines = entries.map some ∧ (∀ entry ∈ entries, strict entry = true) ∧
      entries.foldlM (Grammar.read dates) {} = some g

variable {dates} {files : Files} {g g' : Grammar} {line : Json}

theorem scans_empty (h : files.history = none) : Scans dates files {} := by
  refine ⟨by rw [h]; rfl, [], by rw [h]; rfl, by simp, rfl⟩

theorem Scans.append (h : Scans dates files g) (hstrict : strict line = true) (hread : g.read dates line = some g') :
    Scans dates { files with history := appendHistory files.history line } g' := by
  obtain ⟨htorn, entries, hlines, hall, hscan⟩ := h
  refine ⟨rfl, entries ++ [line], ?_, ?_, ?_⟩
  · simp [appendHistory, History.append, htorn, hlines]
  · intro entry hentry
    rcases List.mem_append.1 hentry with hentry | hentry
    · exact hall entry hentry
    · rw [List.mem_singleton.1 hentry]
      exact hstrict
  · rw [List.foldlM_append, hscan]
    simp [hread]

theorem Scans.with_store (h : Scans dates files g) (store : Option Doc) : Scans dates { files with store := store } g := h

theorem completedMigrationEmptyStore_empty : completedMigrationEmptyStore emptyStoreDoc = true := by
  simp [completedMigrationEmptyStore, emptyStoreDoc, Doc.indented, ApiKeyStore.payload, unclaimed, strict, strictFields,
    strictItems, hasKeys, hasField, field, isStr, isEmptyList, Json.equalsNat]

theorem mapM_filter_strict {entries : List Json} (h : ∀ entry ∈ entries, strict entry = true) :
    (entries.map some).mapM (fun line => line.filter strict) = some entries := by
  induction entries with
  | nil => rfl
  | cons entry entries ih =>
    have hrest := ih fun other hmem => h other (List.mem_cons_of_mem _ hmem)
    rw [List.map_cons, List.mapM_cons, hrest, Option.filter_some, if_pos (h entry List.mem_cons_self)]
    rfl

/-- With a store, a history that is read up to a save is accepted. -/
theorem accepts_of_saved (h : Scans dates files g) (hstore : files.store = some emptyStoreDoc)
    (hsaved : g.storeSaved = true) (hlimits : withinLimits files = true) : validatePreclaimAuthState dates files = true := by
  obtain ⟨htorn, entries, hlines, hall, hscan⟩ := h
  have hne : entries ≠ [] := by
    rintro rfl
    cases hscan
    simp at hsaved
  cases hhistory : files.history with
  | none =>
    simp only [hhistory, Option.getD_none, List.nil_eq, List.map_eq_nil_iff] at hlines
    exact absurd hlines hne
  | some history =>
    rw [hhistory, Option.getD_some] at htorn hlines
    have hentries : history.entries = some entries := by
      simp [History.entries, htorn, hlines, hne, mapM_filter_strict hall]
    simp [validatePreclaimAuthState, hlimits, hstore, hhistory, completedMigrationHistoryIsSafe, hentries, hscan, hsaved,
      completedMigrationEmptyStore_empty]

/-- Without a store, the entry of one proof is accepted. -/
theorem accepts_of_proof {now expiresAt : Int} {bytes : Nat}
    (hhistory : files.history = some ⟨[some (proofLine dates now expiresAt)], false, bytes⟩) (hstore : files.store = none)
    (hlimits : withinLimits files = true) : validatePreclaimAuthState dates files = true := by
  have hstrict : strict (proofLine dates now expiresAt) = true :=
    strict_historyLine dates now _ _ (by simp [strict, strictFields])
  have hentry : completedMigrationHistoryEntry dates (proofLine dates now expiresAt) .proof = true := by
    rw [proofLine, entry_historyLine _ _ _ _ _ (by simp)]
    simp [HistoryKind.event, HistoryKind.reason, HistoryKind.detailsOk, hasKeys, hasField, field, valid_utc]
  simp [validatePreclaimAuthState, hlimits, hstore, hhistory, completedMigrationHistoryIsSafe, History.entries,
    Option.filter, hstrict, hentry]

/-! ## What a step keeps -/

/-- A process past its first `ensure_bootstrap_proof`: the grammar knows whether it has a proof, and of
the save that it has made. -/
structure Running (dates : DateTimes) (g : Grammar) (w : World) : Prop where
  memory : ∃ proof last, w.store = unclaimed proof last ∧ g.proofPresent = proof.isSome ∧
    (last.isSome → g.storeSaved = true)
  scans : Scans dates w.files g
  issued : g.proofIssued = true

variable {now : Int}

/-- An expired proof is cleared in the history as in memory. -/
theorem Scans.pruned {proof : Option BootstrapRecord} (now : Int) (h : Scans dates files g)
    (hproof : g.proofPresent = proof.isSome) :
    Scans dates (prunedFiles dates now proof files) { g with proofPresent := (livingProof dates now proof).isSome } := by
  unfold prunedFiles livingProof
  obtain ⟨present, issued, saved⟩ := g
  obtain rfl : present = proof.isSome := hproof
  cases proof with
  | none => simpa [live] using h
  | some record =>
    by_cases hlive : live dates now (some record) = true
    · simpa [hlive] using h
    · have hstrict : strict (expiredLine dates now) = true :=
        strict_historyLine dates now _ _ (by simp [strict, strictFields])
      simpa [hlive] using h.append hstrict (read_expiredLine dates now _ rfl)

theorem store_prunedFiles (proof : Option BootstrapRecord) (files : Files) :
    (prunedFiles dates now proof files).store = files.store := by
  unfold prunedFiles
  split_ifs <;> rfl

/-- The machine of a step. -/
def stepMachine (w : World) (write : List Outcome) : Machine Target World :=
  ⟨w, fun target => if target = .store then write else []⟩

@[simp] theorem stepMachine_world (w : World) (write : List Outcome) : (stepMachine w write).world = w := rfl

theorem run_step_ensure (w : World) (secret : Codes) :
    (PreclaimStep.ensure now secret).run dates w =
      ((ensureBootstrapProof dates now secret).run.run (stepMachine w [])).2.world :=
  congrArg Machine.world (run_discard _ _)

/-- `ensure_bootstrap_proof` leaves a process with a proof. -/
theorem Running.of_ensure (now : Int) {w : World} {proof : Option BootstrapRecord} {last : Option HistorySnapshot}
    (hstore : w.store = unclaimed proof last) (hscans : Scans dates w.files g) (hproof : g.proofPresent = proof.isSome)
    (hissued : proof.isSome → g.proofIssued = true) (hlast : last.isSome → g.storeSaved = true) (secret : Codes) :
    Running dates { g with proofPresent := true, proofIssued := true } ((PreclaimStep.ensure now secret).run dates w) ∧
      ((PreclaimStep.ensure now secret).run dates w).files.store = w.files.store := by
  rw [run_step_ensure, run_ensureBootstrapProof dates now (by rfl) (by exact hstore)]
  refine ⟨⟨⟨_, last, rfl, ?_, hlast⟩, ?_, rfl⟩, ?_⟩
  · unfold ensuredProof
    split_ifs with hlive
    · cases proof with
      | none => simp [live] at hlive
      | some record => rfl
    · rfl
  · unfold ensuredFiles
    split_ifs with hlive
    · cases proof with
      | none => simp [live] at hlive
      | some record =>
        have hsame : ({ g with proofPresent := true, proofIssued := true } : Grammar) = g := by
          cases g
          simp_all
        rw [hsame]
        exact hscans
    · have hstrict : strict (proofLine dates now (now + bootstrapProofTtl)) = true :=
        strict_historyLine dates now _ _ (by simp [strict, strictFields])
      have happend := (hscans.pruned now hproof).append hstrict (read_proofLine dates now _ _)
      exact happend
  · unfold ensuredFiles
    split_ifs
    · rfl
    · rfl

theorem run_step_save (w : World) (stored : Bool) : (PreclaimStep.save now stored).run dates w =
    ((save dates now).run.run (stepMachine w (if stored then [] else [.fails]))).2.world := by
  cases stored <;> rfl

/-- A save that can write leaves the file of an empty store, and the grammar has seen a save. -/
theorem Running.save (now : Int) {w : World} (h : Running dates g w) (hissued : g.proofIssued = true) :
    ∃ present, Running dates ⟨present, true, true⟩ ((PreclaimStep.save now true).run dates w) ∧
      ((PreclaimStep.save now true).run dates w).files.store = some emptyStoreDoc := by
  obtain ⟨proof, last, hstore, hproof, hlast⟩ := h.memory
  have houtcomes : (stepMachine w []).outcomes = fun _ => [] := by
    funext target
    simp [stepMachine]
  rw [run_step_save, if_pos rfl, run_save dates now houtcomes hstore]
  have hpruned := (h.scans.pruned now hproof).with_store (some emptyStoreDoc)
  refine ⟨(livingProof dates now proof).isSome, ⟨⟨_, _, rfl, rfl, fun _ => rfl⟩, ?_, rfl⟩, ?_⟩
  · unfold savedFiles
    dsimp only
    split_ifs with hsame
    · have hsaved : g.storeSaved = true := hlast (by rw [← hsame]; rfl)
      rw [hissued, hsaved] at hpruned
      exact hpruned
    · have hstrict : strict (savedLine dates now (livingProof dates now proof).isSome) = true :=
        strict_historyLine dates now _ _ (strict_details _)
      have happend := hpruned.append hstrict (read_savedLine dates now _ hissued)
      rw [hissued] at happend
      exact happend
  · unfold savedFiles
    dsimp only
    split_ifs
    · rfl
    · rfl

/-- A save that cannot write may still clear the proof. -/
theorem Running.save_fails (now : Int) {w : World} (h : Running dates g w) :
    ∃ present, Running dates { g with proofPresent := present } ((PreclaimStep.save now false).run dates w) ∧
      ((PreclaimStep.save now false).run dates w).files.store = w.files.store := by
  obtain ⟨proof, last, hstore, hproof, hlast⟩ := h.memory
  rw [run_step_save, if_neg (by simp), run_save_fails dates now rfl rfl hstore]
  exact ⟨_, ⟨⟨_, _, rfl, rfl, hlast⟩, h.scans.pruned now hproof, h.issued⟩, store_prunedFiles _ _⟩

/-! ## Runs -/

/-- What holds once there is a store. -/
structure Stored (dates : DateTimes) (phase : Phase) (w : World) : Prop where
  file : w.files.store = some emptyStoreDoc
  grammar : ∃ g, Scans dates w.files g ∧ g.storeSaved = true ∧ g.proofIssued = true ∧
    (phase = .loaded → w.store = unclaimed none none ∧ g.proofPresent = false) ∧ (phase = .running → Running dates g w)

/-- Every step of a process keeps it. -/
theorem Stored.step {phase : Phase} {w : World} (h : Stored dates phase w) (step : PreclaimStep)
    (steps : List PreclaimStep) (hvalid : Lifetimes phase (step :: steps)) :
    ∃ phase', Stored dates phase' (step.run dates w) ∧ Lifetimes phase' steps := by
  obtain ⟨hfile, g, hscans, hsaved, hissued, hloaded, hrunning⟩ := h
  cases step with
  | start now backupPath =>
    have hrun : (PreclaimStep.start now backupPath).run dates w = _ :=
      (run_load dates now (m := stepMachine w []) rfl).2 hfile
    have hstrict : strict (loadedLine dates now) = true := strict_historyLine dates now _ _ (strict_details _)
    refine ⟨.loaded, ⟨?_, { g with proofPresent := false }, ?_, hsaved, hissued, fun _ => ⟨?_, rfl⟩, by simp⟩, hvalid⟩
    · rw [hrun]
      exact hfile
    · rw [hrun]
      exact hscans.append hstrict (read_loadedLine dates now g hsaved)
    · rw [hrun]
  | ensure now secret =>
    obtain ⟨hphase, hrest⟩ := hvalid
    have hmemory : ∃ proof last, w.store = unclaimed proof last ∧ g.proofPresent = proof.isSome ∧
        (last.isSome → g.storeSaved = true) := by
      cases phase with
      | ended => exact absurd rfl hphase
      | loaded =>
        obtain ⟨hstore, hpresent⟩ := hloaded rfl
        exact ⟨none, none, hstore, hpresent, by simp⟩
      | running => exact (hrunning rfl).memory
    obtain ⟨proof, last, hstore, hproof, hlast⟩ := hmemory
    obtain ⟨hnext, hsame⟩ := Running.of_ensure now hstore hscans hproof (fun _ => hissued) hlast secret
    exact ⟨.running, ⟨hsame.trans hfile, _, hnext.scans, hsaved, rfl, by simp, fun _ => hnext⟩, hrest⟩
  | save now stored =>
    obtain ⟨rfl, hrest⟩ := hvalid
    cases stored with
    | true =>
      obtain ⟨present, hnext, hstore⟩ := (hrunning rfl).save now hissued
      exact ⟨.running, ⟨hstore, _, hnext.scans, rfl, rfl, by simp, fun _ => hnext⟩, hrest⟩
    | false =>
      obtain ⟨present, hnext, hstore⟩ := (hrunning rfl).save_fails now
      exact ⟨.running, ⟨hstore.trans hfile, _, hnext.scans, hsaved, hissued, by simp, fun _ => hnext⟩, hrest⟩

theorem Stored.accepts {phase : Phase} {w : World} (h : Stored dates phase w) (hlimits : withinLimits w.files = true) :
    validatePreclaimAuthState dates w.files = true := by
  obtain ⟨hfile, g, hscans, hsaved, -, -, -⟩ := h
  exact accepts_of_saved hscans hfile hsaved hlimits

/-- Once there is a store, every state is accepted. -/
theorem Stored.run_accepts {phase : Phase} {w : World} (h : Stored dates phase w) (steps : List PreclaimStep)
    (hvalid : Lifetimes phase steps) (n : Nat) (hlimits : withinLimits (runPreclaim dates w (steps.take n)).files = true) :
    validatePreclaimAuthState dates (runPreclaim dates w (steps.take n)).files = true := by
  induction steps generalizing phase w n with
  | nil =>
    rw [List.take_nil] at hlimits ⊢
    exact h.accepts hlimits
  | cons step steps ih =>
    cases n with
    | zero => exact h.accepts hlimits
    | succ n =>
      obtain ⟨phase', hnext, hrest⟩ := h.step step steps hvalid
      exact ih hnext hrest n hlimits

/-- The history holds the entry of one proof. -/
def OneEntry (dates : DateTimes) (files : Files) : Prop :=
  ∃ now expiresAt bytes, files.history = some ⟨[some (proofLine dates now expiresAt)], false, bytes⟩

/-- What holds while there is no store. -/
def Unsaved (dates : DateTimes) (phase : Phase) (opening : Opening) (w : World) : Prop :=
  w.files.store = none ∧
  match opening with
  | .fresh => w.files.history = none ∧ phase ≠ .running ∧ (phase = .loaded → w.store = unclaimed none none)
  | .opened until_ => OneEntry dates w.files ∧ phase = .running ∧ ∃ record, w.store = unclaimed (some record) none ∧
      ∀ now, isPast dates now record.expiresAt = some (decide (until_ ≤ now))
  | .gone => OneEntry dates w.files ∧ phase ≠ .running

theorem Unsaved.accepts {phase : Phase} {opening : Opening} {w : World} (h : Unsaved dates phase opening w)
    (hlimits : withinLimits w.files = true) : validatePreclaimAuthState dates w.files = true := by
  obtain ⟨hfile, h⟩ := h
  cases opening with
  | fresh => simp [validatePreclaimAuthState, hlimits, hfile, h.1]
  | opened until_ =>
    obtain ⟨⟨_, _, _, hhistory⟩, -⟩ := h
    exact accepts_of_proof hhistory hfile hlimits
  | gone =>
    obtain ⟨⟨_, _, _, hhistory⟩, -⟩ := h
    exact accepts_of_proof hhistory hfile hlimits

/-- The one proof that is open before there is a store has not expired. -/
theorem live_of_opened {now : Int} {record : BootstrapRecord} {until_ : Int}
    (h : ∀ now, isPast dates now record.expiresAt = some (decide (until_ ≤ now))) (hnow : now < until_) :
    live dates now (some record) = true := by
  simp [live, h now, hnow]

/-- The grammar at the entry of one proof. -/
theorem OneEntry.running {w : World} {record : BootstrapRecord} (h : OneEntry dates w.files)
    (hstore : w.store = unclaimed (some record) none) : Running dates ⟨true, true, false⟩ w := by
  obtain ⟨at_, expiresAt, bytes, hhistory⟩ := h
  refine ⟨⟨some record, none, hstore, rfl, by simp⟩, ⟨by rw [hhistory]; rfl, [proofLine dates at_ expiresAt], ?_, ?_, ?_⟩, rfl⟩
  · rw [hhistory]
    rfl
  · intro entry hentry
    rw [List.mem_singleton.1 hentry]
    exact strict_historyLine dates at_ _ _ (by simp [strict, strictFields])
  · simp [read_proofLine]

/-- While only one proof was opened and it has not expired, a step keeps that, or writes the store. -/
theorem Unsaved.step {phase : Phase} {opening : Opening} {w : World} (h : Unsaved dates phase opening w)
    (step : PreclaimStep) (steps : List PreclaimStep) (hvalid : Lifetimes phase (step :: steps))
    (hone : OneProof opening (step :: steps)) :
    ∃ phase', Lifetimes phase' steps ∧ (Stored dates phase' (step.run dates w) ∨
      ∃ opening', Unsaved dates phase' opening' (step.run dates w) ∧ OneProof opening' steps) := by
  obtain ⟨hfile, h⟩ := h
  cases step with
  | start now backupPath =>
    have hrun : (PreclaimStep.start now backupPath).run dates w = ⟨unclaimed none none, w.files⟩ :=
      (run_load dates now (m := stepMachine w []) rfl).1 hfile
    refine ⟨.loaded, hvalid, .inr ?_⟩
    rw [hrun]
    cases opening with
    | fresh => exact ⟨.fresh, ⟨hfile, h.1, by simp, fun _ => rfl⟩, hone⟩
    | opened until_ => exact ⟨.gone, ⟨hfile, h.1, by simp⟩, hone⟩
    | gone => exact ⟨.gone, ⟨hfile, h.1, by simp⟩, hone⟩
  | ensure now secret =>
    obtain ⟨hphase, hrest⟩ := hvalid
    refine ⟨.running, hrest, .inr ?_⟩
    rw [run_step_ensure]
    cases opening with
    | fresh =>
      have hloaded : phase = .loaded := by
        cases phase with
        | ended => exact absurd rfl hphase
        | loaded => rfl
        | running => exact absurd rfl h.2.1
      rw [run_ensureBootstrapProof dates now rfl (h.2.2 hloaded)]
      refine ⟨.opened ((now + bootstrapProofTtl) / 1000000 * 1000000),
        ⟨hfile, ⟨now, now + bootstrapProofTtl, (({} : History).append
          (proofLine dates now (now + bootstrapProofTtl))).bytes, ?_⟩, rfl, _, rfl, fun later => isPast_utc dates later _⟩, hone⟩
      change appendHistory w.files.history _ = _
      rw [h.1]
      rfl
    | opened until_ =>
      obtain ⟨hentry, -, record, hstore, hpast⟩ := h
      have hlive : live dates now (some record) = true := live_of_opened hpast hone.1
      rw [run_ensureBootstrapProof dates now rfl hstore]
      refine ⟨.opened until_, ⟨?_, ?_, rfl, record, ?_, hpast⟩, hone.2⟩
      · simpa [ensuredFiles, hlive] using hfile
      · simpa [ensuredFiles, hlive] using hentry
      · simp [ensuredProof, hlive]
    | gone => exact absurd hone id
  | save now stored =>
    obtain ⟨rfl, hrest⟩ := hvalid
    refine ⟨.running, hrest, ?_⟩
    cases opening with
    | fresh => exact absurd rfl h.2.1
    | gone => exact absurd rfl h.2
    | opened until_ =>
      obtain ⟨hentry, -, record, hstore, hpast⟩ := h
      cases stored with
      | true =>
        obtain ⟨present, hnext, hsaved⟩ := (hentry.running hstore).save now rfl
        exact .inl ⟨hsaved, _, hnext.scans, rfl, rfl, by simp, fun _ => hnext⟩
      | false =>
        have hlive : live dates now (some record) = true := live_of_opened hpast hone.1
        refine .inr ⟨.opened until_, ?_, hone.2⟩
        rw [run_step_save, if_neg (by simp), run_save_fails dates now rfl rfl hstore]
        refine ⟨?_, ?_, rfl, record, ?_, hpast⟩
        · simpa [prunedFiles, hlive] using hfile
        · simpa [prunedFiles, hlive] using hentry
        · simp [livingProof, hlive]

theorem Unsaved.run_accepts {phase : Phase} {opening : Opening} {w : World} (h : Unsaved dates phase opening w)
    (steps : List PreclaimStep) (hvalid : Lifetimes phase steps) (hone : OneProof opening steps) (n : Nat)
    (hlimits : withinLimits (runPreclaim dates w (steps.take n)).files = true) :
    validatePreclaimAuthState dates (runPreclaim dates w (steps.take n)).files = true := by
  induction steps generalizing phase opening w n with
  | nil =>
    rw [List.take_nil] at hlimits ⊢
    exact h.accepts hlimits
  | cons step steps ih =>
    cases n with
    | zero => exact h.accepts hlimits
    | succ n =>
      obtain ⟨phase', hrest, hstored | ⟨opening', hnext, honext⟩⟩ := h.step step steps hvalid hone
      · exact hstored.run_accepts steps hrest n hlimits
      · exact ih hnext hrest honext n hlimits

end Scans

/-! ## What an unclaimed application writes is accepted -/

/-- From an empty directory, at every moment between two steps. -/
theorem preclaim_accepted (dates : DateTimes) (steps : List PreclaimStep) (hvalid : Lifetimes .ended steps)
    (hone : OneProof .fresh steps) (n : Nat) (hlimits : withinLimits (runPreclaim dates {} (steps.take n)).files = true) :
    validatePreclaimAuthState dates (runPreclaim dates {} (steps.take n)).files = true :=
  have hstart : Unsaved dates .ended .fresh {} := ⟨rfl, rfl, by simp, by simp⟩
  hstart.run_accepts steps hvalid hone n hlimits

set_option maxRecDepth 10000

/-- Two processes, each with a save. -/
def twoLifetimes : List PreclaimStep :=
  [.start 0 [], .ensure 0 [], .ensure (seconds 5) [], .save (seconds 10) true, .start (seconds 20) [],
    .ensure (seconds 20) [], .save (seconds 30) true]

theorem two_lifetimes_accepted :
    validatePreclaimAuthState newYearDates (runPreclaim newYearDates {} (twoLifetimes.take 7)).files = true :=
  preclaim_accepted newYearDates twoLifetimes (by simp [twoLifetimes, Lifetimes]) (by simp [twoLifetimes, OneProof]; decide) 7
    (by decide +kernel)

/-- A process that ends before its first save leaves a proof in the history, and the next one adds a second. -/
theorem second_proof_rejected :
    Lifetimes .ended [.start 0 [], .ensure 0 [], .start (seconds 5) [], .ensure (seconds 5) []] ∧
      let files := (runPreclaim newYearDates {}
        [.start 0 [], .ensure 0 [], .start (seconds 5) [], .ensure (seconds 5) []]).files
      withinLimits files = true ∧ validatePreclaimAuthState newYearDates files = false := by
  refine ⟨by simp [Lifetimes], ?_⟩
  decide +kernel

end SeedSync.Auth
