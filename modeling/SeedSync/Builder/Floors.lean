import SeedSync.Builder.Calls
import SeedSync.Persist.Reload

/-!
# Display floors over a restart

The floors that the builder lists for the persisted state, what `from_str` makes of them, and what a
build shows of them when they are handed back.
-/

namespace SeedSync.Builder

open SystemFile Lib Persist

/-! ## What is listed -/

/-- Whether a floor of an earlier run is listed again: nothing has disproved it. -/
def retainsFloor (b : Sources) (fileId : FileId) (floor : DisplayFloor) : Bool :=
  match b.lftpStatuses.get fileId, b.remoteFiles.get fileId with
  | some status, some remote =>
    match remote.mtimeNs, status.totalTransferState.sizeLocal, status.totalTransferState.sizeRemote with
    | some mtimeNs, some rawLocal, some rawRemote =>
      decide (fileId ∉ b.stoppedFiles) && status.isRunning && decide (status.type = .pget) &&
        !b.isLifecycleRevokedStatusIdentity fileId (some status.id) (some status.type) && !remote.isDir &&
        ((b.activeFiles.get fileId).or (b.localFiles.get fileId)).all statusSidecarReady &&
        decide (0 < rawLocal ∧ rawLocal ≤ rawRemote ∧ rawRemote ≤ remote.size) &&
        decide (floor.sourceSize = remote.size ∧ floor.sourceMtime = mtimeNs / 1000000000 ∧
          floor.subsetTotal = rawRemote ∧ 0 < floor.bytes ∧ floor.bytes < remote.size ∧
          floor.percent = floorPercent floor.bytes remote.size)
    | _, _, _ => false
  | _, _ => false

/-- The floor that is harvested of a live snapshot. -/
def harvestFloor (b : Sources) (fileId : FileId) (snapshot : Snapshot) : Option DisplayFloor :=
  let local' := (b.activeFiles.get snapshot.rootFileId).or (b.localFiles.get fileId)
  match b.lftpStatuses.get snapshot.rootFileId, b.remoteFiles.get fileId, snapshot.sizeLocal with
  | some status, some remote, some size =>
    match remote.mtimeNs, status.totalTransferState.sizeLocal, status.totalTransferState.sizeRemote with
    | some mtimeNs, some rawLocal, some rawRemote =>
      if status.isRunning && decide (status.type = .pget) &&
          !b.isStoppedFile fileId (some remote) local' (some status) && !remote.isDir &&
          local'.any statusSidecarReady &&
          decide (0 < rawRemote ∧ rawRemote ≤ remote.size ∧ 0 < rawLocal ∧ rawLocal ≤ rawRemote) &&
          decide (0 < size ∧ size < remote.size) &&
          !b.isLifecycleRevokedStatusIdentity snapshot.rootFileId (some status.id) (some status.type) then
        some ⟨size, floorPercent size remote.size, remote.size, mtimeNs / 1000000000, rawRemote⟩
      else none
    | _, _, _ => none
  | _, _, _ => none

/-- `persisted_display_progress_floors` -/
def persistedDisplayProgressFloors (b : Sources) (t : Transfers) : Dict FileId DisplayFloor :=
  t.recent.items.foldl (fun floors item =>
    match harvestFloor b item.1 item.2 with
    | some floor => floors.set item.1 floor
    | none => floors) (t.persistedDisplayProgressFloors.filter (retainsFloor b))

/-- The status on whose word a floor is listed. -/
def Vouches (b : Sources) (t : Transfers) (fileId : FileId) (floor : DisplayFloor) (status : LftpJobStatus) : Prop :=
  (t.persistedDisplayProgressFloors.get fileId = some floor ∧ b.lftpStatuses.get fileId = some status) ∨
    ∃ snapshot, t.recent.get fileId = some snapshot ∧ b.lftpStatuses.get snapshot.rootFileId = some status

/-- What holds of a floor when it is listed: the job, the source and the counters it was taken from. -/
structure Backed (b : Sources) (fileId : FileId) (floor : DisplayFloor) (status : LftpJobStatus) (remote : SystemFile)
    (mtimeNs rawLocal rawRemote : Int) : Prop where
  running : status.isRunning = true
  pget : status.type = .pget
  unstopped : fileId ∉ b.stoppedFiles
  scanned : b.remoteFiles.get fileId = some remote
  isFile : remote.isDir = false
  modified : remote.mtimeNs = some mtimeNs
  sizeLocal : status.totalTransferState.sizeLocal = some rawLocal
  sizeRemote : status.totalTransferState.sizeRemote = some rawRemote
  counted : 0 < rawLocal ∧ rawLocal ≤ rawRemote ∧ rawRemote ≤ remote.size
  source : floor.sourceSize = remote.size ∧ floor.sourceMtime = mtimeNs / 1000000000 ∧ floor.subsetTotal = rawRemote
  bytes : 0 < floor.bytes ∧ floor.bytes < remote.size
  percent : floor.percent = floorPercent floor.bytes remote.size

section

variable {b : Sources} {t : Transfers} {fileId : FileId} {floor : DisplayFloor}

theorem not_mem_stopped {remote local' : Option SystemFile} {status : Option LftpJobStatus}
    (h : b.isStoppedFile fileId remote local' status = false) : fileId ∉ b.stoppedFiles := by
  intro hmem
  have hfirst : fileId ∈ Sources.candidateStoppedFileIds fileId remote local' status := by
    unfold Sources.candidateStoppedFileIds
    split
    · simp
    · split <;> simp
  have hany : (Sources.candidateStoppedFileIds fileId remote local' status).any
      (fun id => decide (id ∈ b.stoppedFiles)) = true := List.any_eq_true.2 ⟨fileId, hfirst, by simpa using hmem⟩
  rw [Sources.isStoppedFile, if_pos hany] at h
  simp at h

theorem backed_of_retains (h : retainsFloor b fileId floor = true) : ∃ status remote mtimeNs rawLocal rawRemote,
    b.lftpStatuses.get fileId = some status ∧ Backed b fileId floor status remote mtimeNs rawLocal rawRemote := by
  unfold retainsFloor at h
  cases hstatus : b.lftpStatuses.get fileId with
  | none => simp [hstatus] at h
  | some status =>
    cases hremote : b.remoteFiles.get fileId with
    | none => simp [hstatus, hremote] at h
    | some remote =>
      simp only [hstatus, hremote] at h
      split at h
      · next mtimeNs rawLocal rawRemote hmtime hlocal hsize =>
        simp only [Bool.and_eq_true, decide_eq_true_eq, Bool.not_eq_true'] at h
        obtain ⟨⟨⟨⟨⟨⟨⟨hunstopped, hrunning⟩, hpget⟩, -⟩, hfile⟩, -⟩, hcounted⟩, hsource, hmtime', hsubset, hpos, hbelow, hpercent⟩ := h
        exact ⟨status, remote, mtimeNs, rawLocal, rawRemote, rfl, hrunning, hpget, hunstopped, hremote, hfile, hmtime,
          hlocal, hsize, hcounted, ⟨hsource, hmtime', hsubset⟩, ⟨hpos, hbelow⟩, hpercent⟩
      · simp at h

theorem backed_of_harvest {snapshot : Snapshot} (h : harvestFloor b fileId snapshot = some floor) :
    ∃ status remote mtimeNs rawLocal rawRemote, b.lftpStatuses.get snapshot.rootFileId = some status ∧
      Backed b fileId floor status remote mtimeNs rawLocal rawRemote := by
  unfold harvestFloor at h
  cases hstatus : b.lftpStatuses.get snapshot.rootFileId with
  | none => simp [hstatus] at h
  | some status =>
    cases hremote : b.remoteFiles.get fileId with
    | none => simp [hstatus, hremote] at h
    | some remote =>
      simp only [hstatus, hremote] at h
      split at h
      · next size found _ hstatus' hremote' _ =>
        cases hstatus'
        cases hremote'
        split at h
        · next mtimeNs rawLocal rawRemote hmtime hlocal hsize =>
          split_ifs at h with hall
          obtain rfl := Option.some.inj h
          simp only [Bool.and_eq_true, decide_eq_true_eq, Bool.not_eq_true'] at hall
          obtain ⟨⟨⟨⟨⟨⟨⟨hrunning, hpget⟩, hstopped⟩, hfile⟩, -⟩, hcounted⟩, hbytes⟩, -⟩ := hall
          exact ⟨_, _, mtimeNs, rawLocal, rawRemote, rfl, hrunning, hpget, not_mem_stopped hstopped, hremote,
            hfile, hmtime, hlocal, hsize, ⟨hcounted.2.2.1, hcounted.2.2.2, hcounted.2.1⟩, ⟨rfl, rfl, rfl⟩, hbytes, rfl⟩
        · simp at h
      · simp at h

/-- A floor that is listed was kept, or harvested of the snapshot under its id. -/
theorem listed_cases (h : (persistedDisplayProgressFloors b t).get fileId = some floor) :
    (t.persistedDisplayProgressFloors.get fileId = some floor ∧ retainsFloor b fileId floor = true) ∨
      ∃ snapshot, t.recent.get fileId = some snapshot ∧ harvestFloor b fileId snapshot = some floor := by
  have hfold : ∀ (items : List (FileId × Snapshot)) (floors : Dict FileId DisplayFloor),
      (items.foldl (fun floors item =>
        match harvestFloor b item.1 item.2 with
        | some floor => floors.set item.1 floor
        | none => floors) floors).get fileId = some floor →
      floors.get fileId = some floor ∨ ∃ snapshot, (fileId, snapshot) ∈ items ∧ harvestFloor b fileId snapshot = some floor := by
    intro items
    induction items with
    | nil => exact fun floors h => .inl h
    | cons item items ih =>
      intro floors h
      rcases ih _ h with h | ⟨snapshot, hmem, hharvest⟩
      · dsimp only at h
        split at h
        · next found hfound =>
          rcases Dict.eq_or_of_get_set h with ⟨rfl, rfl⟩ | h
          · exact .inr ⟨item.2, List.mem_cons_self, hfound⟩
          · exact .inl h
        · exact .inl h
      · exact .inr ⟨snapshot, List.mem_cons_of_mem item hmem, hharvest⟩
  rcases hfold _ _ h with h | ⟨snapshot, hmem, hharvest⟩
  · exact .inl ((Dict.get_filter_eq_some _ _ _ _).1 h)
  · exact .inr ⟨snapshot, (Dict.get_eq_some _ _ _).2 hmem, hharvest⟩

theorem backed_of_listed (h : (persistedDisplayProgressFloors b t).get fileId = some floor) :
    ∃ status remote mtimeNs rawLocal rawRemote, Vouches b t fileId floor status ∧
      Backed b fileId floor status remote mtimeNs rawLocal rawRemote := by
  rcases listed_cases h with ⟨hkept, hretains⟩ | ⟨snapshot, hsnapshot, hharvest⟩
  · obtain ⟨status, remote, mtimeNs, rawLocal, rawRemote, hstatus, hbacked⟩ := backed_of_retains hretains
    exact ⟨status, remote, mtimeNs, rawLocal, rawRemote, .inl ⟨hkept, hstatus⟩, hbacked⟩
  · obtain ⟨status, remote, mtimeNs, rawLocal, rawRemote, hstatus, hbacked⟩ := backed_of_harvest hharvest
    exact ⟨status, remote, mtimeNs, rawLocal, rawRemote, .inr ⟨snapshot, hsnapshot, hstatus⟩, hbacked⟩

end

/-! ## What is read back -/

/-- The id as a string of Python. -/
def idStr (fileId : FileId) : Identity.Str := ⟨codes fileId.text, isText_codes _⟩

def DisplayFloor.persisted (floor : DisplayFloor) : Floor :=
  ⟨floor.bytes, floor.percent, floor.sourceSize, floor.sourceMtime, floor.subsetTotal⟩

/-- `from_str` rounds as the builder does. -/
def rounding (env : PersistEnv) : PersistEnv := { env with percentOf := roundedPercent }

/-- The floors of a state are listed floors, each under a canonical id and of a file that is not dated
before 1970. -/
def HoldsListed (isUuid : Identity.Str → Bool) (b : Sources) (t : Transfers) (floors : Dict Identity.Str Floor) : Prop :=
  ∀ item ∈ floors.items, canonicalResumeSourceId isUuid item.1 = some item.1 ∧
    ∃ fileId floor, idStr fileId = item.1 ∧ floor.persisted = item.2 ∧
      (persistedDisplayProgressFloors b t).get fileId = some floor ∧
      (b.remoteFiles.get fileId).all fun remote => remote.mtimeNs.all fun mtimeNs => decide (0 ≤ mtimeNs)

/-- The counters stand at the floor or above it. -/
structure Shows (floor : DisplayFloor) (shown : TransferState) : Prop where
  size : ∃ size, shown.sizeLocal = some size ∧ floor.bytes ≤ size
  percent : ∃ percent, shown.percentLocal = some percent ∧ floor.percent ≤ percent

theorem floorPercent_nonneg {bytes whole : Int} (hbytes : 0 ≤ bytes) (hwhole : 0 < whole) : 0 ≤ floorPercent bytes whole := by
  have hq : 0 ≤ bytes * 100 / whole := Int.ediv_nonneg (by omega) hwhole.le
  unfold floorPercent roundedPercent
  dsimp only
  split_ifs <;> omega

section

variable {b : Sources} {t : Transfers} {fileId : FileId} {floor : DisplayFloor} {status : LftpJobStatus}
  {remote : SystemFile} {mtimeNs rawLocal rawRemote : Int}

theorem Backed.admitted (h : Backed b fileId floor status remote mtimeNs rawLocal rawRemote) (env : PersistEnv)
    (hmtime : 0 ≤ mtimeNs) : floor.persisted.Admitted (rounding env) := by
  obtain ⟨hsize, hsecond, hsubset⟩ := h.source
  obtain ⟨hpos, hbelow⟩ := h.bytes
  obtain ⟨hlocal, hraw, hwhole⟩ := h.counted
  refine ⟨⟨hpos, ?_⟩, ⟨?_, ?_⟩, ?_, ?_⟩
  · change floor.bytes < floor.sourceSize
    rw [hsize]
    exact hbelow
  · change floor.percent = floorPercent floor.bytes floor.sourceSize
    rw [hsize]
    exact h.percent
  · change 0 ≤ floor.percent
    rw [h.percent]
    exact floorPercent_nonneg hpos.le (by omega)
  · change 0 ≤ floor.sourceMtime
    rw [hsecond]
    exact Int.ediv_nonneg hmtime (by norm_num)
  · change 0 < floor.subsetTotal ∧ floor.subsetTotal ≤ floor.sourceSize
    rw [hsubset, hsize]
    omega

/-- A floor that is handed back is shown, where a sidecar stands by it and its job is not revoked. -/
theorem Backed.shown (h : Backed b fileId floor status remote mtimeNs rawLocal rawRemote)
    {reloaded : Dict FileId DisplayFloor} (hreloaded : reloaded.get fileId = some floor)
    (hcurrent : b.isLifecycleRevokedStatusIdentity fileId (some status.id) (some status.type) = false)
    {local' : Option SystemFile} (hready : (local'.or (b.activeFiles.get status.fileId)).any statusSidecarReady = true)
    (state : TransferState) :
    Shows floor (applyPersistedDisplayProgressFloor b
      (setPersistedDisplayProgressFloors reloaded ⟨b, t⟩).transfers fileId state status.totalTransferState
      (some remote) local' status) := by
  have hkept : (setPersistedDisplayProgressFloors reloaded ⟨b, t⟩).transfers.persistedDisplayProgressFloors.get fileId =
      some floor := (Dict.get_filter_eq_some _ _ _ _).2 ⟨hreloaded, by simpa using h.unstopped⟩
  obtain ⟨hsize, hsecond, hsubset⟩ := h.source
  obtain ⟨hpos, hbelow⟩ := h.bytes
  have hnonneg := floorPercent_nonneg hpos.le (hpos.trans hbelow)
  have hbound : floorPercent floor.bytes remote.size ≤ 99 := min_le_left _ _
  simp only [applyPersistedDisplayProgressFloor, hkept, h.sizeLocal, h.sizeRemote, h.modified]
  rw [if_neg (by simp [h.running, h.pget, h.isFile, hready]), if_neg (by have := h.counted; omega),
    if_neg (by simp [hcurrent]), if_neg (by have := h.counted; have := h.percent; omega)]
  refine ⟨⟨_, rfl, ?_⟩, ⟨_, rfl, ?_⟩⟩
  · omega
  · rw [h.percent]
    omega

end

theorem HoldsListed.admitted {env : PersistEnv} {b : Sources} {t : Transfers} {floors : Dict Identity.Str Floor}
    (h : HoldsListed env.isUuid b t floors) {item : Identity.Str × Floor} (hitem : item ∈ floors.items) :
    item.1.Joined ∧ canonicalResumeSourceId (rounding env).isUuid item.1 = some item.1 ∧
      item.2.Admitted (rounding env) := by
  obtain ⟨hcanonical, fileId, floor, hid, hfloor, hlisted, hmtime⟩ := h item hitem
  obtain ⟨status, remote, mtimeNs, rawLocal, rawRemote, -, hbacked⟩ := backed_of_listed hlisted
  rw [hbacked.scanned, Option.all_some, hbacked.modified, Option.all_some, decide_eq_true_eq] at hmtime
  refine ⟨?_, hcanonical, hfloor ▸ hbacked.admitted env hmtime⟩
  rw [← hid]
  exact joinCodes_codes _

/-- The state that holds listed floors is read back, and a build shows each of them that is handed back. -/
theorem listed_floors_survive {env : PersistEnv} {b : Sources} {t : Transfers} {p : ControllerPersist}
    (hrest : Reloadable (rounding env) { p with displayProgressFloors := {} })
    (hfloors : HoldsListed env.isUuid b t p.displayProgressFloors) :
    ∃ p', ControllerPersist.fromStr (rounding env) p.toStr = .ok p' ∧
      p'.displayProgressFloors = p.displayProgressFloors ∧
      ∀ fileId floor, (persistedDisplayProgressFloors b t).get fileId = some floor →
        p.displayProgressFloors.get (idStr fileId) = some floor.persisted →
        ∃ status remote, Vouches b t fileId floor status ∧ b.remoteFiles.get fileId = some remote ∧
          ∀ reloaded : Dict FileId DisplayFloor,
            (reloaded.get fileId).map DisplayFloor.persisted = p'.displayProgressFloors.get (idStr fileId) →
            b.isLifecycleRevokedStatusIdentity fileId (some status.id) (some status.type) = false →
            ∀ local' state, (local'.or (b.activeFiles.get status.fileId)).any statusSidecarReady = true →
              Shows floor (applyPersistedDisplayProgressFloor b
                (setPersistedDisplayProgressFloors reloaded ⟨b, t⟩).transfers fileId state status.totalTransferState
                (some remote) local' status) := by
  have hreloadable : Reloadable (rounding env) p :=
    ⟨hrest.downloaded, hrest.extracted, hrest.stopped, hrest.finalMoveSucceeded, hrest.timestamps, hrest.counts,
      hrest.resumeSources, fun item hitem => hfloors.admitted hitem, hrest.phase⟩
  refine ⟨p, fromStr_toStr hreloadable, rfl, fun fileId floor hlisted hheld => ?_⟩
  obtain ⟨status, remote, mtimeNs, rawLocal, rawRemote, hvouches, hbacked⟩ := backed_of_listed hlisted
  refine ⟨status, remote, hvouches, hbacked.scanned, fun reloaded hreloaded hcurrent local' state hready => ?_⟩
  obtain ⟨found, hfound, hsame⟩ := Option.map_eq_some_iff.1 (hreloaded.trans hheld)
  have heq : found = floor := by
    cases found
    cases floor
    simpa [DisplayFloor.persisted] using hsame
  exact hbacked.shown (heq ▸ hfound) hcurrent hready state

/-! ### A download over a restart -/

def restartEnv : PersistEnv where
  isUuid _ := false
  toFloat n := .decimal n 0
  percentOf _ _ := 0
  decodeError _ := "Expecting value: line 1 column 1 (char 0)"

def movieId : FileId := .paired "p" "movie.mkv"

def movieFloor : DisplayFloor := ⟨40, 40, 100, 5, 100⟩

def movieStatus : LftpJobStatus :=
  { id := 1
    type := .pget
    state := .running
    name := "movie.mkv"
    pathPairId := some "p"
    totalTransferState := { sizeLocal := some 30, sizeRemote := some 100 } }

def movieAt (ready : Bool) : SystemFile :=
  mk { name := "movie.mkv", size := 100, mtimeNs := some 5000000000, pathPairId := some "p", statusSidecarReady := ready } []

/-- The local library is not scanned yet. -/
def unscanned : Sources :=
  { remoteFiles := .ofList [movieAt false], lftpStatuses := .ofList [movieStatus] }

def rescanned : Sources := { unscanned with localFiles := .ofList [movieAt true] }

def handedOver : Transfers := { persistedDisplayProgressFloors := .ofList [(movieId, movieFloor)] }

def movieState : ControllerPersist := { displayProgressFloors := .ofList [(idStr movieId, movieFloor.persisted)] }

theorem movieFloor_survives : ∃ p', ControllerPersist.fromStr (rounding restartEnv) movieState.toStr = .ok p' ∧
    p'.displayProgressFloors.get (idStr movieId) = some movieFloor.persisted ∧
    Shows movieFloor (applyPersistedDisplayProgressFloor rescanned
      (setPersistedDisplayProgressFloors handedOver.persistedDisplayProgressFloors ⟨rescanned, handedOver⟩).transfers
      movieId {} movieStatus.totalTransferState (some (movieAt false)) (some (movieAt true)) movieStatus) := by
  have hlisted : (persistedDisplayProgressFloors rescanned handedOver).get movieId = some movieFloor := by
    decide +kernel
  have hitems : movieState.displayProgressFloors.items = [(idStr movieId, movieFloor.persisted)] := by decide +kernel
  have hrest : Reloadable (rounding restartEnv) { movieState with displayProgressFloors := {} } :=
    ⟨nofun, nofun, nofun, nofun, nofun, nofun, nofun, nofun, .inl rfl⟩
  have hfloors : HoldsListed restartEnv.isUuid rescanned handedOver movieState.displayProgressFloors := by
    intro item hitem
    rw [hitems, List.mem_singleton] at hitem
    subst hitem
    exact ⟨by decide +kernel, movieId, movieFloor, rfl, rfl, hlisted, by decide +kernel⟩
  have hheld : movieState.displayProgressFloors.get (idStr movieId) = some movieFloor.persisted := by decide +kernel
  obtain ⟨p', hread, hsame, hshown⟩ := listed_floors_survive hrest hfloors
  obtain ⟨status, remote, hvouches, hremote, hshown⟩ := hshown movieId movieFloor hlisted hheld
  have hstatus : status = movieStatus := by
    have hfound : rescanned.lftpStatuses.get movieId = some movieStatus := by decide +kernel
    rcases hvouches with ⟨-, h⟩ | ⟨snapshot, h, -⟩
    · exact Option.some.inj (h.symm.trans hfound)
    · exact absurd h nofun
  have hscanned : remote = movieAt false := by
    have hfound : rescanned.remoteFiles.get movieId = some (movieAt false) := by decide +kernel
    exact Option.some.inj (hremote.symm.trans hfound)
  subst hstatus hscanned
  refine ⟨p', hread, by rw [hsame, hheld], hshown _ ?_ (by decide +kernel) _ _ (by decide +kernel)⟩
  rw [hsame, hheld]
  decide +kernel

/-- A floor that is listed while the local library is not scanned is not shown. -/
theorem unscanned_floor_hidden :
    (persistedDisplayProgressFloors unscanned handedOver).get movieId = some movieFloor ∧
      canonicalResumeSourceId restartEnv.isUuid (idStr movieId) = some (idStr movieId) ∧
      ¬ Shows movieFloor (applyPersistedDisplayProgressFloor unscanned
        (setPersistedDisplayProgressFloors handedOver.persistedDisplayProgressFloors ⟨unscanned, handedOver⟩).transfers
        movieId {} movieStatus.totalTransferState (unscanned.remoteFiles.get movieId) (unscanned.localFiles.get movieId)
        movieStatus) := by
  refine ⟨by decide +kernel, by decide +kernel, fun h => ?_⟩
  obtain ⟨size, hsize, -⟩ := h.size
  have hnone : (applyPersistedDisplayProgressFloor unscanned
      (setPersistedDisplayProgressFloors handedOver.persistedDisplayProgressFloors ⟨unscanned, handedOver⟩).transfers
      movieId {} movieStatus.totalTransferState (unscanned.remoteFiles.get movieId) (unscanned.localFiles.get movieId)
      movieStatus).sizeLocal = none := by decide +kernel
  rw [hnone] at hsize
  simp at hsize

end SeedSync.Builder
