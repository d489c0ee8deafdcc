import SeedSync.Settings.Handler
import SeedSync.Settings.Loading

/-!
# What the writers leave

Whatever the writers do in whatever order, the file is the text of the configuration, every value is one
that its property accepts, and a writer that does not succeed leaves configuration and file as they were.
-/

open SeedSync.Lib

namespace SeedSync.Settings

section
variable {py : Strings} {s : Schema} {inner inner' : Inner} {part : Part} {key : String} {value : Value}

/-! ## Sections -/

theorem Part.schema_mem (part : Part) : part.schema ∈ schemas := by cases part <;> simp [Part.schema, schemas]

theorem part_withPart (c : Config) (p q : Part) (inner : Inner) :
    (c.withPart p inner).part q = if p = q then inner else c.part q := by
  cases p <;> cases q <;> rfl

theorem config_ext {c d : Config} (h : ∀ part, c.part part = d.part part) : c = d := by
  have hparts := And.intro (h .general) (And.intro (h .lftp) (And.intro (h .validate) (And.intro (h .controller)
    (And.intro (h .web) (And.intro (h .autoqueue) (And.intro (h .logging) (h .notifications)))))))
  obtain ⟨h1, h2, h3, h4, h5, h6, h7, h8⟩ := hparts
  cases c
  cases d
  simp only [Config.part] at h1 h2 h3 h4 h5 h6 h7 h8
  subst h1 h2 h3 h4 h5 h6 h7 h8
  rfl

/-- Every value is accepted as it is, and with rclone the protocol is sftp. -/
structure Schema.Steady (py : Strings) (s : Schema) (inner : Inner) : Prop where
  has : s.Has (fun p value => p.accept py s.cls value = .ok value) inner
  constrained : s.Constrained inner

def Config.Steady (py : Strings) (c : Config) : Prop := ∀ part : Part, part.schema.Steady py (c.part part)

theorem Schema.setKey_find {p : Property} (hs : s.WellFormed) (hp : p ∈ s.properties) :
    s.setKey py inner p.name value = s.setProperty py inner p value := by
  have hfind : s.properties.find? (fun q => decide (q.name = p.name)) = some p := by
    cases hfound : s.properties.find? (fun q => decide (q.name = p.name)) with
    | none => exact absurd (List.find?_eq_none.mp hfound p hp) (by simp)
    | some q =>
      have hname : q.name = p.name := by simpa using List.find?_some hfound
      rw [List.inj_on_of_nodup_map hs.nodup (List.mem_of_find?_eq_some hfound) hp hname]
  rw [Schema.setKey, hfind]

/-- A property that is set leaves a section of accepted values. -/
theorem Schema.Steady.set (hs : s ∈ schemas) (h : s.Steady py inner) (hset : s.setKey py inner key value = .ok inner') :
    s.Steady py inner' := by
  have hwell := schemas_wellFormed s hs
  unfold Schema.setKey at hset
  split at hset
  · next p hfind =>
    have hp := List.mem_of_find?_eq_some hfind
    obtain ⟨stored, rfl, hstored⟩ := Schema.setProperty_ok (hwell.sensible p hp) hset
    have haccept : p.accept py s.cls stored = .ok stored := by
      rcases hstored with hstored | ⟨-, hnone, rfl⟩
      · exact Property.accept_again (hwell.sensible p hp) hstored
      · have hold := h.has.values p hp
        rwa [hnone] at hold
    have hmem : p.name ∈ inner.map Prod.fst := h.has.names ▸ List.mem_map_of_mem hp
    have hkeys := setItem_same_keys hmem stored
    refine ⟨⟨?_, fun q hq => ?_⟩, h.constrained.set p.name stored⟩
    · rw [forced_keys, hkeys, h.has.names]
      intro hc
      rw [hkeys, h.has.names]
      exact schemas_protocol s hs hc
    · rw [read_forced]
      split_ifs with hforce
      · exact accept_sftp hs hq hforce.1 hforce.2.2.2.2
      · rw [read_setItem]
        split_ifs with hname
        · rwa [← List.inj_on_of_nodup_map hwell.nodup hp hq hname]
        · exact h.has.values q hq
  · cases hset

theorem Part.steady_set (h : part.schema.Steady py inner) (hset : part.setProperty py inner key value = .ok inner') :
    part.schema.Steady py inner' := by
  unfold Part.setProperty at hset
  split_ifs at hset with hdebug
  · obtain ⟨level, -, hlevel⟩ := bind_ok hset
    rw [hdebug.1] at h ⊢
    exact h.set (Part.schema_mem .general) hlevel
  · exact h.set part.schema_mem hset

/-! ## Restoring a section -/

theorem schemas_backend_first : ∀ s ∈ schemas, s.constrained = true → (s.properties.map Property.name).head? = some "transfer_backend" := by
  decide

theorem general_debug : "debug" ∉ general.properties.map Property.name := by decide

/-- Setting every property to what it was, the backend first, gives the section that was. -/
theorem Schema.restore_fold {snapshot : Inner} (hs : s ∈ schemas) (hsnapshot : s.Steady py snapshot) (items done : Inner)
    (hsplit : snapshot = done ++ items) (hnames : inner.map Prod.fst = s.properties.map Property.name)
    (hdone : ∀ item ∈ done, inner.read item.1 = snapshot.read item.1) :
    ∃ inner', items.foldlM (fun inner item => s.setKey py inner item.1 item.2) inner = .ok inner' ∧
      inner'.map Prod.fst = s.properties.map Property.name ∧ ∀ item ∈ snapshot, inner'.read item.1 = snapshot.read item.1 := by
  induction items generalizing inner done with
  | nil =>
    rw [List.append_nil] at hsplit
    exact ⟨inner, rfl, hnames, hsplit ▸ hdone⟩
  | cons item items ih =>
    have hwell := schemas_wellFormed s hs
    have hitem : item ∈ snapshot := by rw [hsplit]; simp
    have hname : item.1 ∈ s.properties.map Property.name := hsnapshot.has.names ▸ List.mem_map_of_mem hitem
    obtain ⟨p, hp, hpname⟩ := List.mem_map.mp hname
    have hnodup : (snapshot.map Prod.fst).Nodup := hsnapshot.has.names ▸ hwell.nodup
    have hread : snapshot.read item.1 = item.2 := by
      rw [Inner.read, (Dict.getItem_eq_some hnodup item.1 item.2).mpr hitem]
      rfl
    have haccept : p.accept py s.cls item.2 = .ok item.2 := by
      have hold := hsnapshot.has.values p hp
      rwa [hpname, hread] at hold
    have hset : s.setKey py inner item.1 item.2 = .ok (s.forced (Dict.setItem inner item.1 item.2) item.1) := by
      rw [← hpname, Schema.setKey_find hwell hp]
      exact Schema.setProperty_restore (hwell.sensible p hp) haccept
    have hkeys := setItem_same_keys (hnames ▸ hname) item.2
    -- the backend comes first, so what is read of it is what the snapshot has
    have hbackend : s.constrained = true → (Inner.read (Dict.setItem inner item.1 item.2) "transfer_backend") =
        snapshot.read "transfer_backend" := by
      intro hconstrained
      rw [read_setItem]
      split_ifs with heq
      · rw [← heq, hread]
      · cases done with
        | nil =>
          have hfirst := schemas_backend_first s hs hconstrained
          rw [← hsnapshot.has.names, hsplit] at hfirst
          exact absurd (by simpa using hfirst) heq
        | cons first done =>
          have hfirst := schemas_backend_first s hs hconstrained
          rw [← hsnapshot.has.names, hsplit] at hfirst
          have hfirst : first.1 = "transfer_backend" := by simpa using hfirst
          have := hdone first List.mem_cons_self
          rwa [hfirst] at this
    have hnames' : (s.forced (Dict.setItem inner item.1 item.2) item.1).map Prod.fst = s.properties.map Property.name := by
      rw [forced_keys, hkeys, hnames]
      intro hc
      rw [hkeys, hnames]
      exact schemas_protocol s hs hc
    have hdone' : ∀ other ∈ done ++ [item],
        (s.forced (Dict.setItem inner item.1 item.2) item.1).read other.1 = snapshot.read other.1 := by
      intro other hother
      rw [read_forced]
      split_ifs with hforce
      · have hrclone : snapshot.read "transfer_backend" = rclone := (hbackend hforce.1).symm.trans hforce.2.2.1
        rw [hforce.2.2.2.2, hsnapshot.constrained hforce.1 hrclone]
      · rw [read_setItem]
        split_ifs with heq
        · rw [← heq, hread]
        · rcases List.mem_append.mp hother with hother | hother
          · exact hdone other hother
          · exact absurd (by rw [List.mem_singleton.mp hother]) heq
    obtain ⟨result, hfold, hresult⟩ := ih (done ++ [item]) (by rw [hsplit]; simp) hnames' hdone'
    refine ⟨result, ?_, hresult⟩
    rw [List.foldlM_cons, hset]
    exact hfold

theorem Part.setProperty_snapshot {snapshot : Inner} (hnames : snapshot.map Prod.fst = part.schema.properties.map Property.name)
    {item : String × Value} (hitem : item ∈ snapshot) (inner : Inner) :
    part.setProperty py inner item.1 item.2 = part.schema.setKey py inner item.1 item.2 := by
  rw [Part.setProperty, if_neg]
  rintro ⟨rfl, hdebug⟩
  have hmem : item.1 ∈ snapshot.map Prod.fst := List.mem_map_of_mem hitem
  rw [hnames, hdebug] at hmem
  exact general_debug hmem

theorem attempt_sets (items : Inner) {store : Store} {snapshot result : Inner}
    (hnames : snapshot.map Prod.fst = part.schema.properties.map Property.name) (hitems : ∀ item ∈ items, item ∈ snapshot)
    (h : items.foldlM (fun inner item => part.schema.setKey py inner item.1 item.2) (store.config.part part) = .ok result) :
    attempt store (items.map fun item => Edit.set py part item.1 item.2) =
      ({ store with config := store.config.withPart part result }, none) := by
  induction items generalizing store with
  | nil =>
    cases h
    have hsame : store.config.withPart part (store.config.part part) = store.config :=
      config_ext fun q => by rw [part_withPart]; split_ifs with hq <;> simp [hq]
    rw [hsame]
    rfl
  | cons item items ih =>
    obtain ⟨inner, hset, hrest⟩ := foldlM_cons_ok h
    have hstep : Edit.set py part item.1 item.2 store = .ok { store with config := store.config.withPart part inner } := by
      rw [Edit.set, Part.setProperty_snapshot hnames (hitems item List.mem_cons_self), hset]
    have hpart : (store.config.withPart part inner).part part = inner := by rw [part_withPart, if_pos rfl]
    rw [List.map_cons, attempt_ok hstep, ih (fun i hi => hitems i (List.mem_cons_of_mem _ hi)) (by rw [hpart]; exact hrest)]
    have htwice : (store.config.withPart part inner).withPart part result = store.config.withPart part result :=
      config_ext fun q => by simp only [part_withPart]; split_ifs <;> rfl
    rw [htwice]

/-- Taking the edits of a section back never fails. -/
theorem attempt_restore {store before : Store} (hbefore : before.config.Steady py) (hsteady : store.config.Steady py)
    (hothers : ∀ q, q ≠ part → store.config.part q = before.config.part q) :
    attempt store (Edit.restore py part (before.config.part part)) = ({ store with config := before.config }, none) := by
  obtain ⟨result, hfold, hnames, hread⟩ := Schema.restore_fold part.schema_mem (hbefore part) (before.config.part part) []
    rfl (hsteady part).has.names (by simp)
  have hresult : result = before.config.part part := by
    refine inner_ext (schemas_wellFormed _ part.schema_mem) hnames (hbefore part).has.names fun p hp => ?_
    have hmem : p.name ∈ (before.config.part part).map Prod.fst := (hbefore part).has.names ▸ List.mem_map_of_mem hp
    obtain ⟨item, hitem, hname⟩ := List.mem_map.mp hmem
    rw [← hname]
    exact hread item hitem
  rw [Edit.restore, attempt_sets _ (hbefore part).has.names (fun _ h => h) hfold, hresult]
  have hconfig : store.config.withPart part (before.config.part part) = before.config :=
    config_ext fun q => by
      rw [part_withPart]
      split_ifs with hq
      · rw [hq]
      · exact hothers q (Ne.symm hq)
  rw [hconfig]

/-! ## One transaction -/

/-- What the edits of a section keep while they are made. -/
structure During (py : Strings) (part : Part) (before store : Store) : Prop where
  steady : store.config.Steady py
  others : ∀ q, q ≠ part → store.config.part q = before.config.part q
  file : store.file = before.file

theorem During.set {before store after : Store} (h : During py part before store) (hset : Edit.set py part key value store = .ok after) :
    During py part before after := by
  unfold Edit.set at hset
  split at hset
  · next inner hinner =>
    cases hset
    refine ⟨fun q => ?_, fun q hq => ?_, h.file⟩
    · rw [part_withPart]
      split_ifs with hq
      · exact hq ▸ Part.steady_set (h.steady part) hinner
      · exact h.steady q
    · rw [part_withPart, if_neg (Ne.symm hq)]
      exact h.others q hq
  · cases hset

/-- The answers of a writer that did not succeed. -/
def Answer.refused : Answer → Bool
  | .response r => decide (r.status ≠ 200)
  | .failed => true
  | _ => false

/-- What a writer does: everything, with the file written, or nothing to configuration and file. -/
structure Atomic (py : Strings) (before after : Store) (answer : Answer) : Prop where
  steady : after.config.Steady py
  kept : answer.refused = true → after.config = before.config ∧ after.file = before.file
  written : answer.refused = false → after.file = after.config.toStr
  taken : answer ≠ .raised

theorem save_ok {saves : Bool} {store after : Store} (h : Edit.save saves store = .ok after) :
    after = { store with file := store.config.toStr } := by
  unfold Edit.save at h
  split_ifs at h
  cases h
  rfl

theorem Admitted.commit_atomic (r : Admitted) (saves : Bool) {store : Store} (h : store.config.Steady py) :
    Atomic py store (r.commit py saves store).1 (r.commit py saves store).2 := by
  have hedits : ∀ edit ∈ r.edits py, ∀ s t, During py r.part store s → edit s = .ok t → During py r.part store t := by
    intro edit hedit s t hs ht
    rcases List.mem_cons.mp hedit with rfl | hedit
    · exact hs.set ht
    · split_ifs at hedit with hpart
      · rw [List.mem_singleton.mp hedit, Edit.constrain] at ht
        split_ifs at ht
        · rw [hpart] at hs ⊢
          exact hs.set ht
        · cases ht
          exact hs
      · cases hedit
  have hundo : ∀ t, During py r.part store t → ∃ u, attempt t (Edit.restore py r.part (store.config.part r.part)) = (u, none) ∧
      (u.config = store.config ∧ u.file = store.file) := fun t ht =>
    ⟨_, attempt_restore h ht.steady ht.others, rfl, ht.file⟩
  have hstart : During py r.part store store := ⟨h, fun _ _ => rfl, rfl⟩
  have hends := @transact_last _ _ _ _ _ _ _ (Edit.save saves) hstart hedits hundo
  rcases hends with ⟨t, u, ht, -, hsave, htransact⟩ | ⟨u, e, ⟨hconfig, hfile⟩, htransact⟩
  · rw [Admitted.commit, htransact]
    dsimp only
    rw [save_ok hsave]
    exact ⟨ht.steady, fun hrefused => by simp [Answer.refused] at hrefused, fun _ => rfl, by simp⟩
  · rw [Admitted.commit, htransact]
    cases e with
    | message text => exact ⟨hconfig ▸ h, fun _ => ⟨hconfig, hfile⟩, fun hok => by simp [Answer.refused] at hok, by simp⟩
    | other => exact ⟨hconfig ▸ h, fun _ => ⟨hconfig, hfile⟩, fun hok => by simp [Answer.refused, refuse] at hok, by simp⟩

theorem During.notifier {before store : Store} (h : During py part before store) (notifier : NotificationSettings) :
    During py part before { store with notifier } := ⟨h.steady, h.others, h.file⟩

theorem During.setText {before store after : Store} {message : String} (h : During py .notifications before store)
    (hset : Edit.setText py message key value store = .ok after) : During py .notifications before after := by
  unfold Edit.setText at hset
  split at hset
  · exact h.set hset
  · cases hset

theorem validate_same {store after : Store} {data : List (String × Value)} {check : Codes → Bool → Except Codes Unit}
    (h : Edit.validate data key check store = .ok after) : after = store := by
  unfold Edit.validate at h
  split at h
  · split_ifs at h
    · split at h
      · cases h
        rfl
      · cases h
    · cases h
      rfl
  · cases h
    rfl

theorem During.update {before store after : Store} {u : Update} {data : List (String × Value)} {edit : Edit}
    (h : During py .notifications before store) (hedit : edit ∈ u.edits py data) (hset : edit store = .ok after) :
    During py .notifications before after := by
  unfold Update.edits at hedit
  simp only [List.mem_append, fieldEdits, List.mem_filterMap, Option.map_eq_some_iff, List.mem_cons, List.not_mem_nil,
    or_false] at hedit
  rcases hedit with ((⟨field, -, value, -, rfl⟩ | ⟨field, -, value, -, rfl⟩) | ⟨field, -, value, -, rfl⟩) | rfl | rfl | rfl | rfl
  · exact h.set hset
  · exact h.setText hset
  · unfold Edit.setSecret at hset
    split_ifs at hset
    · cases hset
    · exact h.setText hset
  · unfold Edit.requireUrl at hset
    split_ifs at hset
    cases hset
    exact h
  · exact validate_same hset ▸ h
  · exact validate_same hset ▸ h
  · unfold Edit.reconfigure at hset
    split at hset
    · next notifier _ =>
      cases hset
      exact h.notifier notifier
    · cases hset

theorem Update.handle_atomic (u : Update) {store : Store} (h : store.config.Steady py) :
    Atomic py store (u.handle py store).1 (u.handle py store).2 := by
  have hnothing : ∀ text, Atomic py store store (.response (errorResponse text 400)) := fun text =>
    ⟨h, fun _ => ⟨rfl, rfl⟩, fun hok => by simp [Answer.refused, errorResponse, Response.ofJson] at hok, by simp⟩
  unfold Update.handle
  split
  · exact hnothing _
  · next data _ =>
    split_ifs with hunknown
    · exact hnothing _
    · have hundo : ∀ t, During py .notifications store t →
          ∃ v, attempt t (Edit.restore py .notifications store.config.notifications ++ [Edit.reconfigureBack u.returns]) = (v, none) ∧
            (v.config = store.config ∧ v.file = store.file) := by
        intro t ht
        have hback : attempt t (Edit.restore py .notifications store.config.notifications) = ({ t with config := store.config }, none) :=
          attempt_restore h ht.steady ht.others
        rw [attempt_append, hback]
        dsimp only
        cases hagain : Settings.reconfigure u.returns store.config.notifications with
        | ok notifier =>
          exact ⟨{ t with config := store.config, notifier }, by rw [attempt, Edit.reconfigureBack, hagain]; rfl, rfl, ht.file⟩
        | error message =>
          exact ⟨{ t with config := store.config }, by rw [attempt, Edit.reconfigureBack, hagain]; rfl, rfl, ht.file⟩
      have hstart : During py .notifications store store := ⟨h, fun _ _ => rfl, rfl⟩
      have hedits : ∀ edit ∈ u.edits py data, ∀ s t, During py .notifications store s → edit s = .ok t →
          During py .notifications store t := fun edit hedit s t hs ht => hs.update hedit ht
      have hends := @transact_last _ _ _ _ _ _ _ (Edit.save u.saves) hstart hedits hundo
      rcases hends with ⟨t, v, ht, -, hsave, htransact⟩ | ⟨v, e, ⟨hconfig, hkept⟩, htransact⟩
      · rw [htransact]
        dsimp only
        rw [save_ok hsave]
        exact ⟨ht.steady, fun hrefused => by simp [Answer.refused, Response.ofJson] at hrefused, fun _ => rfl, by simp⟩
      · rw [htransact]
        cases e with
        | message text =>
          exact ⟨hconfig ▸ h, fun _ => ⟨hconfig, hkept⟩, fun hok => by simp [Answer.refused, errorResponse, Response.ofJson] at hok, by simp⟩
        | other =>
          exact ⟨hconfig ▸ h, fun _ => ⟨hconfig, hkept⟩, fun hok => by simp [Answer.refused, errorResponse, Response.ofJson] at hok, by simp⟩

/-- Assigning the policy is setting it: its text is not converted. -/
theorem assignPolicy_eq (value : Value) : Edit.assignPolicy py value = Edit.set py .general "breadcrumb_trace_policy" value := by
  have hproperty : general.properties.find? (fun p => decide (p.name = "breadcrumb_trace_policy")) =
      some { name := "breadcrumb_trace_policy", checker := .breadcrumbTracePolicy, converter := .null,
             initial := .str (codes "\x7b\x7d") } := by decide
  have hset : ∀ inner : Inner, Part.setProperty py .general inner "breadcrumb_trace_policy" value =
      general.store py inner "breadcrumb_trace_policy" .breadcrumbTracePolicy value := by
    intro inner
    have hnative : ∀ p : Property, p.converter = .null → p.native py general.cls value = .ok value := by
      intro p hp
      cases value with
      | str text => rw [Property.native, hp, Converter.convert]
      | none | bool | int => rfl
    rw [Part.setProperty, if_neg (by decide)]
    change general.setKey py inner "breadcrumb_trace_policy" value = _
    rw [Schema.setKey, hproperty]
    dsimp only
    rw [Schema.setProperty, hnative _ rfl]
    change (general.store py inner "breadcrumb_trace_policy" .breadcrumbTracePolicy value).bind _ = _
    cases general.store py inner "breadcrumb_trace_policy" .breadcrumbTracePolicy value with
    | error e => rfl
    | ok stored => exact Schema.constrain_eq general stored _
  funext store
  have hgeneral : store.config.part .general = store.config.general := rfl
  rw [Edit.assignPolicy, Edit.set, hgeneral, hset]

/-- What the policy's edits keep: everything but the policy. -/
structure DuringPolicy (py : Strings) (before store : Store) : Prop where
  during : During py .general before store
  reads : ∀ name, name ≠ "breadcrumb_trace_policy" → store.config.general.read name = before.config.general.read name

theorem general_unforced (inner : Inner) (name : String) : general.forced inner name = inner := if_neg fun h => by cases h.1

theorem mem_policy : ∃ p ∈ general.properties, p.name = "breadcrumb_trace_policy" := by decide

theorem setProperty_policy (inner : Inner) {p : Property} (hp : p ∈ general.properties) (hname : p.name = "breadcrumb_trace_policy")
    (value : Value) : Part.setProperty py .general inner "breadcrumb_trace_policy" value = general.setProperty py inner p value := by
  have hkey := @Schema.setKey_find py general inner value p (schemas_wellFormed _ (Part.schema_mem .general)) hp
  rw [hname] at hkey
  rw [Part.setProperty, if_neg (by decide)]
  exact hkey

theorem DuringPolicy.set {before store after : Store} (h : DuringPolicy py before store)
    (hset : Edit.set py .general "breadcrumb_trace_policy" value store = .ok after) : DuringPolicy py before after := by
  refine ⟨h.during.set hset, fun name hname => ?_⟩
  obtain ⟨p, hp, hpname⟩ := mem_policy
  have hsensible := (schemas_wellFormed _ (Part.schema_mem .general)).sensible p hp
  unfold Edit.set at hset
  rw [setProperty_policy _ hp hpname] at hset
  split at hset
  · next inner hinner =>
    cases hset
    obtain ⟨stored, rfl, -⟩ := Schema.setProperty_ok hsensible hinner
    rw [general_unforced, hpname]
    change Inner.read (Dict.setItem store.config.general "breadcrumb_trace_policy" stored) name = _
    rw [read_setItem, if_neg (Ne.symm hname)]
    exact h.reads name hname
  · cases hset

theorem attempt_policy {before store : Store} (hbefore : before.config.Steady py) (h : DuringPolicy py before store) :
    attempt store [Edit.set py .general "breadcrumb_trace_policy" (before.config.general.read "breadcrumb_trace_policy")] =
      ({ store with config := before.config }, none) := by
  obtain ⟨p, hp, hpname⟩ := mem_policy
  have hwell := schemas_wellFormed _ (Part.schema_mem .general)
  have haccept := (hbefore .general).has.values p hp
  rw [hpname] at haccept
  have hmem : "breadcrumb_trace_policy" ∈ store.config.general.map Prod.fst :=
    (h.during.steady .general).has.names ▸ hpname ▸ List.mem_map_of_mem hp
  have hback : Dict.setItem store.config.general "breadcrumb_trace_policy" (before.config.general.read "breadcrumb_trace_policy") =
      before.config.general := by
    refine inner_ext hwell ?_ (hbefore .general).has.names fun q hq => ?_
    · rw [setItem_same_keys hmem]
      exact (h.during.steady .general).has.names
    · rw [read_setItem]
      split_ifs with hname
      · rw [hname]
      · exact h.reads q.name (Ne.symm hname)
  have hset : general.setProperty py store.config.general p (before.config.general.read "breadcrumb_trace_policy") =
      .ok before.config.general := by
    have hrestored := @Schema.setProperty_restore py general store.config.general p _ (hwell.sensible p hp) haccept
    rw [general_unforced, hpname] at hrestored
    exact hrestored.trans (congrArg Except.ok hback)
  have hconfig : store.config.withPart .general before.config.general = before.config := config_ext fun q => by
    rw [part_withPart]
    split_ifs with hq
    · rw [← hq]
      rfl
    · exact h.during.others q (Ne.symm hq)
  have hpart : store.config.part .general = store.config.general := rfl
  have hedit : Edit.set py .general "breadcrumb_trace_policy" (before.config.general.read "breadcrumb_trace_policy") store =
      .ok { store with config := before.config } := by
    rw [Edit.set, hpart, setProperty_policy _ hp hpname, hset]
    dsimp only
    rw [hconfig]
  rw [attempt_ok hedit]
  rfl

theorem persistPolicy_atomic (text : Codes) (saves : Bool) {store : Store} (h : store.config.Steady py) :
    Atomic py store (persistPolicy py text saves store).1 (persistPolicy py text saves store).2 := by
  have hstart : DuringPolicy py store store := ⟨⟨h, fun _ _ => rfl, rfl⟩, fun _ _ => rfl⟩
  have hedits : ∀ edit ∈ [Edit.set py .general "breadcrumb_trace_policy" (.str text)], ∀ s t, DuringPolicy py store s →
      edit s = .ok t → DuringPolicy py store t := by
    intro edit hedit s t hs ht
    rw [List.mem_singleton.mp hedit] at ht
    exact hs.set ht
  have hundo : ∀ t, DuringPolicy py store t → ∃ u,
      attempt t [Edit.set py .general "breadcrumb_trace_policy" (store.config.general.read "breadcrumb_trace_policy")] = (u, none) ∧
        (u.config = store.config ∧ u.file = store.file) := fun t ht => ⟨_, attempt_policy h ht, rfl, ht.during.file⟩
  have hends := @transact_last _ _ _ _ _ _ _ (Edit.save saves) hstart hedits hundo
  unfold persistPolicy
  rw [assignPolicy_eq, assignPolicy_eq]
  rcases hends with ⟨t, u, ht, -, hsave, htransact⟩ | ⟨u, e, ⟨hconfig, hfile⟩, htransact⟩
  · rw [List.singleton_append] at htransact
    rw [htransact]
    dsimp only
    rw [save_ok hsave]
    exact ⟨ht.during.steady, fun hrefused => by simp [Answer.refused] at hrefused, fun _ => rfl, by simp⟩
  · rw [List.singleton_append] at htransact
    rw [htransact]
    exact ⟨hconfig ▸ h, fun _ => ⟨hconfig, hfile⟩, fun hok => by simp [Answer.refused] at hok, by simp⟩

/-! ## Runs -/

theorem Config.Loaded.steady {c : Config} (h : c.Loaded py) : c.Steady py := by
  intro part
  have hpart : (part.schema, c.part part) ∈ c.parts := by cases part <;> simp [Config.parts, Part.schema, Config.part]
  have hloaded := h _ hpart
  refine ⟨⟨hloaded.has.names, fun p hp => ?_⟩, hloaded.constrained⟩
  obtain ⟨given, -, haccept⟩ := hloaded.has.values p hp
  exact Property.accept_again ((schemas_wellFormed _ part.schema_mem).sensible p hp) haccept

/-- One write: nothing to the store before the lock, all or nothing under it. -/
theorem Writers.write_cases {w after : Writers} {write : Write} {answer : Answer} (h : w.store.config.Steady py)
    (hwrite : w.write py write = some (after, answer)) :
    (after.store = w.store ∧ answer ≠ .raised) ∨ Atomic py w.store after.store answer := by
  cases write with
  | arrive seen r =>
    unfold Writers.write at hwrite
    dsimp only at hwrite
    left
    split at hwrite <;> cases hwrite <;> simp
  | commit i saves =>
    obtain ⟨r, -, heq⟩ := Option.map_eq_some_iff.mp hwrite
    cases heq
    exact Or.inr (r.commit_atomic saves h)
  | update u =>
    cases hwrite
    exact Or.inr (u.handle_atomic h)
  | policy text saves =>
    cases hwrite
    exact Or.inr (persistPolicy_atomic text saves h)

/-- What holds between the writes of any run. -/
structure Writers.Sound (py : Strings) (start w : Writers) : Prop where
  steady : w.store.config.Steady py
  written : w.store.file = w.store.config.toStr ∨ w.store.config = start.store.config ∧ w.store.file = start.store.file

theorem Writers.Sound.write {start w after : Writers} {write : Write} {answer : Answer} (h : Writers.Sound py start w)
    (hwrite : w.write py write = some (after, answer)) : Writers.Sound py start after := by
  rcases Writers.write_cases h.steady hwrite with ⟨hstore, -⟩ | hatomic
  · exact ⟨hstore ▸ h.steady, by rw [hstore]; exact h.written⟩
  · refine ⟨hatomic.steady, ?_⟩
    cases hrefused : answer.refused with
    | true =>
      obtain ⟨hconfig, hfile⟩ := hatomic.kept hrefused
      rw [hconfig, hfile]
      exact h.written
    | false => exact Or.inl (hatomic.written hrefused)

/-- However the writers take turns, from a configuration that was loaded: with rclone the protocol is sftp;
the file is the text of the configuration, unless nothing was written yet; a writer that is refused leaves
both as they were, and taking its edits back never fails. -/
theorem settings_writers {w w' after : Writers} {writes : List Write} {write : Write} {answer : Answer}
    (h : w.store.config.Loaded py) (hrun : w.run py writes = some w') (hwrite : w'.write py write = some (after, answer)) :
    (after.store.config.lftp.read "transfer_backend" = rclone → after.store.config.lftp.read "protocol" = sftp) ∧
    (after.store.file = after.store.config.toStr ∨
      after.store.config = w.store.config ∧ after.store.file = w.store.file) ∧
    (answer.refused = true → after.store.config = w'.store.config ∧ after.store.file = w'.store.file) ∧
    answer ≠ .raised := by
  have hsound : Writers.Sound py w w' := by
    refine runMoves_invariant (Writers.Sound py w) hrun (fun s t i _ hs hmove => ?_) ⟨h.steady, Or.inr ⟨rfl, rfl⟩⟩
    obtain ⟨⟨next, given⟩, hstep, rfl⟩ := Option.map_eq_some_iff.mp hmove
    exact hs.write hstep
  have hafter := hsound.write hwrite
  refine ⟨(hafter.steady .lftp).constrained rfl, hafter.written, ?_⟩
  rcases Writers.write_cases hsound.steady hwrite with ⟨hstore, hanswer⟩ | hatomic
  · exact ⟨fun _ => ⟨by rw [hstore], by rw [hstore]⟩, hanswer⟩
  · exact ⟨hatomic.kept, hatomic.taken⟩

/-- The value is accepted as it is, and of the kind of its property. -/
def Property.holds (py : Strings) (cls : String) (p : Property) (value : Value) : Bool :=
  (match value with
    | .none => false
    | .str _ => true
    | .bool _ => decide (p.converter = .bool)
    | .int _ => decide (p.converter = .int)) && decide (p.accept py cls value = .ok value)

theorem Schema.loaded_of_holds (hdigits : py.maxDigits = none) (hnames : inner.map Prod.fst = s.properties.map Property.name)
    (hvalues : ∀ p ∈ s.properties, p.holds py s.cls (inner.read p.name) = true) (hconstrained : s.Constrained inner) :
    s.Loaded py inner := by
  refine ⟨⟨hnames, fun p hp => ?_⟩, hconstrained⟩
  have hholds := hvalues p hp
  unfold Property.holds at hholds
  rw [Bool.and_eq_true, decide_eq_true_eq] at hholds
  refine ⟨_, ?_, hholds.2⟩
  have hkind := hholds.1
  generalize inner.read p.name = value at hkind
  cases value with
  | none => cases hkind
  | str text => exact .text text
  | bool flag => exact .flag flag (of_decide_eq_true hkind)
  | int n => exact .number n (of_decide_eq_true hkind) fun limit hlimit => by rw [hdigits] at hlimit; cases hlimit

end

def asciiDigit (c : Nat) : Option Nat := if 48 ≤ c ∧ c ≤ 57 then some (c - 48) else none

theorem asciiDigit_eq (c : Nat) (_ : c < 128) : asciiDigit c = if 48 ≤ c ∧ c ≤ 57 then some (c - 48) else none := rfl

theorem asciiDigit_lt (c d : Nat) (h : asciiDigit c = some d) : d < 10 := by
  unfold asciiDigit at h
  split_ifs at h
  cases h
  omega

theorem map_fold (change : Nat → Nat) (text : Codes) (_ : ∀ c ∈ text, c < 128) : text.map change = text.map change := rfl

theorem noLimit : ∀ limit ∈ (none : Option Nat), 640 ≤ limit := by simp

theorem kelvin_upper : [0x212A].map upperAscii = [0x212A] := by decide

/-- Strings whose letters and digits are those of ASCII. -/
def asciiStrings : Strings where
  digit := asciiDigit
  maxDigits := none
  ascii := asciiDigit_eq
  digit_lt := asciiDigit_lt
  threshold := noLimit
  lower := List.map lowerAscii
  upper := List.map upperAscii
  lower_ascii := map_fold lowerAscii
  upper_ascii := map_fold upperAscii
  upper_kelvin := kelvin_upper

/-- A section with these values in place of the first ones. -/
def Schema.filled (s : Schema) (values : List (String × Value)) : Inner :=
  values.foldl (fun inner item => Dict.setItem inner item.1 item.2) s.initial

/-- A small configuration that uses rclone. -/
def rcloneConfig : Config where
  general := general.filled [("verbose", .bool false), ("api_token", .str []), ("allowed_hostname", .str []),
    ("browser_handover_recovery_version", .str [])]
  lftp := lftp.filled ([("transfer_backend", rclone), ("remote_address", .str (codes "host")), ("remote_username", .str (codes "user")),
    ("remote_password", .str []), ("remote_path", .str (codes "/r")), ("local_path", .str (codes "/l")),
    ("remote_path_to_scan_script", .str (codes "/s")), ("use_ssh_key", .bool false), ("use_temp_file", .bool false),
    ("rate_limit", .str (codes "0")), ("net_socket_buffer", .str (codes "8M")), ("staging_path", .str [])] ++
    ["remote_port", "num_max_parallel_downloads", "num_max_parallel_files_per_download", "num_max_connections_per_root_file",
      "num_max_connections_per_dir_file", "num_max_total_connections"].map fun name => (name, .int 1))
  controller := controller.filled ([("extract_path", .str (codes "/e")), ("use_local_path_as_extract_path", .bool false)] ++
    ["interval_ms_remote_scan", "interval_ms_local_scan", "interval_ms_downloading_scan"].map fun name => (name, .int 1))
  web := web.filled [("port", .int 80)]
  autoqueue := autoqueue.filled [("enabled", .bool false), ("patterns_only", .bool false), ("auto_extract", .bool false)]

theorem rcloneConfig_loaded : rcloneConfig.Loaded asciiStrings := by
  have hholds : ∀ part ∈ rcloneConfig.parts, part.2.map Prod.fst = part.1.properties.map Property.name ∧
      ∀ p ∈ part.1.properties, p.holds asciiStrings part.1.cls (part.2.read p.name) = true := by decide
  have hconstrained : ∀ part ∈ rcloneConfig.parts, part.1.constrained = true → part.2.read "transfer_backend" = rclone →
      part.2.read "protocol" = sftp := by decide
  exact fun part hpart => Schema.loaded_of_holds rfl (hholds part hpart).1 (hholds part hpart).2 (hconstrained part hpart)

/-- Before any write, with a notifier that is off. -/
def quietStart : Writers where
  store := { config := rcloneConfig, file := [],
             notifier := { enabled := false, webhookUrl := [], hmacSecret := [], allowPrivateNetworks := false,
                           downloadStart := false, downloadComplete := true, extractionComplete := true, deleteComplete := true } }

/-- A policy that cannot be saved, then one that can. -/
theorem settings_writers_policy :
    let first := (persistPolicy asciiStrings (codes "scan=debug") false quietStart.store).1
    let second := persistPolicy asciiStrings (codes "scan=info") true first
    (second.1.config.lftp.read "transfer_backend" = rclone → second.1.config.lftp.read "protocol" = sftp) ∧
    (second.1.file = second.1.config.toStr ∨ second.1.config = rcloneConfig ∧ second.1.file = []) ∧
    (second.2.refused = true → second.1.config = first.config ∧ second.1.file = first.file) ∧ second.2 ≠ .raised :=
  @settings_writers asciiStrings quietStart
    { quietStart with store := (persistPolicy asciiStrings (codes "scan=debug") false quietStart.store).1 }
    { quietStart with store := (persistPolicy asciiStrings (codes "scan=info") true
        (persistPolicy asciiStrings (codes "scan=debug") false quietStart.store).1).1 }
    [.policy (codes "scan=debug") false] (.policy (codes "scan=info") true) _ rcloneConfig_loaded rfl rfl

end SeedSync.Settings
