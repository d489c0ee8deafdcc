import SeedSync.Settings.Properties

/-!
# Setting the properties of a section

What one call of `set_property` does to a section, what `from_dict` stores, and when setting the values
of a section one after the other gives that section.
-/

open SeedSync.Lib

namespace SeedSync.Settings

/-! ## Dicts -/

theorem setItem_self {κ ν : Type} [DecidableEq κ] {items : List (κ × ν)} {key : κ} {value : ν}
    (h : Dict.getItem items key = some value) : Dict.setItem items key value = items := by
  induction items with
  | nil => cases h
  | cons item items ih =>
    obtain ⟨k, v⟩ := item
    rw [Dict.getItem] at h
    rw [Dict.setItem]
    split_ifs at h ⊢ with hk
    · cases h
      rfl
    · rw [ih h]

theorem setItem_same_keys {κ ν : Type} [DecidableEq κ] {items : List (κ × ν)} {key : κ} (h : key ∈ items.map Prod.fst)
    (value : ν) : (Dict.setItem items key value).map Prod.fst = items.map Prod.fst := by
  induction items with
  | nil => cases h
  | cons item items ih =>
    obtain ⟨k, v⟩ := item
    rw [Dict.setItem]
    split_ifs with hk
    · rfl
    · rw [List.map_cons, List.mem_cons] at h
      rw [List.map_cons, List.map_cons, ih (h.resolve_left (Ne.symm hk))]

theorem getItem_isSome {κ ν : Type} [DecidableEq κ] {items : List (κ × ν)} {key : κ} :
    (Dict.getItem items key).isSome = true ↔ key ∈ items.map Prod.fst := by
  induction items with
  | nil => simp [Dict.getItem]
  | cons item items ih =>
    obtain ⟨k, v⟩ := item
    rw [Dict.getItem, List.map_cons, List.mem_cons]
    split_ifs with hk
    · simp [hk]
    · rw [ih]
      exact ⟨Or.inr, fun h => h.resolve_left (Ne.symm hk)⟩

theorem getItem_map_codes {ν μ : Type} (items : List (String × ν)) (f : ν → μ) (key : String) :
    Dict.getItem (items.map fun item => (codes item.1, f item.2)) (codes key) = (Dict.getItem items key).map f := by
  induction items with
  | nil => rfl
  | cons item items ih =>
    obtain ⟨k, v⟩ := item
    rw [List.map_cons, Dict.getItem, Dict.getItem]
    by_cases hk : k = key
    · rw [if_pos (congrArg codes hk), if_pos hk]
      rfl
    · rw [if_neg (fun h => hk (codes_injective h)), if_neg hk, ih]

theorem items_ext {κ ν : Type} [DecidableEq κ] {a b : List (κ × ν)} (hkeys : a.map Prod.fst = b.map Prod.fst)
    (hnodup : (a.map Prod.fst).Nodup) (h : ∀ key, Dict.getItem a key = Dict.getItem b key) : a = b := by
  induction a generalizing b with
  | nil => exact (List.map_eq_nil_iff.mp hkeys.symm).symm
  | cons item a ih =>
    obtain ⟨k, v⟩ := item
    cases b with
    | nil => cases hkeys
    | cons other b =>
      obtain ⟨k', v'⟩ := other
      rw [List.map_cons, List.map_cons, List.cons.injEq] at hkeys
      obtain ⟨rfl, hkeys⟩ : k = k' ∧ a.map Prod.fst = b.map Prod.fst := hkeys
      rw [List.map_cons, List.nodup_cons] at hnodup
      have hhead := h k
      rw [Dict.getItem, Dict.getItem, if_pos rfl, if_pos rfl, Option.some_inj] at hhead
      rw [hhead, ih hkeys hnodup.2 fun key => ?_]
      by_cases hk : k = key
      · subst hk
        have hnone : ∀ items : List (κ × ν), k ∉ items.map Prod.fst → Dict.getItem items k = none := by
          intro items hmem
          rw [← Option.not_isSome_iff_eq_none, getItem_isSome]
          exact hmem
        rw [hnone a hnodup.1, hnone b (hkeys ▸ hnodup.1)]
      · have hkey := h key
        rwa [Dict.getItem, Dict.getItem, if_neg hk, if_neg hk] at hkey

/-! ## One property -/

/-- The names stand once, and every checker is made for its converter. -/
structure Schema.WellFormed (s : Schema) : Prop where
  nodup : (s.properties.map Property.name).Nodup
  sensible : ∀ p ∈ s.properties, p.sensible = true

/-- The section with the protocol that rclone asks for. -/
def Schema.forced (s : Schema) (inner : Inner) (name : String) : Inner :=
  if s.constrained ∧ (name = "transfer_backend" ∨ name = "protocol") ∧ inner.read "transfer_backend" = rclone ∧
      inner.read "protocol" ≠ sftp then
    Dict.setItem inner "protocol" sftp
  else inner

/-- With rclone the protocol is sftp. -/
def Schema.Constrained (s : Schema) (inner : Inner) : Prop :=
  s.constrained = true → inner.read "transfer_backend" = rclone → inner.read "protocol" = sftp

section
variable {py : Strings} {s : Schema} {inner inner' : Inner} {name : String} {p : Property} {value stored : Value}

theorem read_setItem (inner : Inner) (name other : String) (value : Value) :
    Inner.read (Dict.setItem inner name value) other = if name = other then value else inner.read other := by
  rw [Inner.read, Dict.getItem_setItem]
  split_ifs <;> rfl

theorem check_sftp (cls name : String) : Checker.check py cls name sftp .transferProtocol = .ok sftp := by
  have hword : Word lowerAscii (codes "sftp") := by decide
  change normalizeTransferProtocol py cls name (.str (codes "sftp")) = _
  rw [normalizeTransferProtocol, normalizeWord, hword.lower, if_neg (by decide), if_pos (by decide)]
  rfl

theorem Schema.constrain_eq (s : Schema) (inner : Inner) (name : String) :
    s.constrain py inner name = .ok (s.forced inner name) := by
  unfold Schema.constrain Schema.forced
  split_ifs with h
  · rw [Schema.store, if_neg (fun hnone => by cases hnone.1), check_sftp]
    rfl
  · rfl

theorem Property.native_none (hsensible : p.sensible = true) (h : p.native py cls value = .ok .none) : value = .none := by
  cases value with
  | none => rfl
  | bool | int => cases h
  | str text =>
    have htext : p.converter.convert py cls p.name text = .ok .none := h
    rcases p.kinds hsensible with ⟨hnull, -⟩ | ⟨hint, -⟩ | ⟨hbool, -⟩ | ⟨hform, -, hconvert⟩
    · rw [hnull] at htext
      cases htext
    · rw [hint] at htext
      obtain ⟨n, hn, -⟩ := convertInt_eq htext
      cases hn
    · rw [hbool] at htext
      obtain ⟨flag, hflag⟩ := convertBool_eq htext
      cases hflag
    · rw [hconvert] at htext
      obtain ⟨other, hother, -⟩ := (Checker.settled hform htext).1.text
      cases hother

/-- What one call stores: the accepted value, unless it clears a value that is not there. -/
theorem Schema.setProperty_ok (hsensible : p.sensible = true) (h : s.setProperty py inner p value = .ok inner') :
    ∃ stored, inner' = s.forced (Dict.setItem inner p.name stored) p.name ∧
      (p.accept py s.cls value = .ok stored ∨ value = .none ∧ inner.read p.name = .none ∧ stored = .none) := by
  obtain ⟨native, hnative, h⟩ := bind_ok h
  obtain ⟨middle, hstore, h⟩ := bind_ok h
  rw [Schema.constrain_eq, Except.ok.injEq] at h
  unfold Schema.store at hstore
  split_ifs at hstore with hnone
  · cases hstore
    rw [hnone.1] at hnative
    exact ⟨.none, h.symm, Or.inr ⟨Property.native_none hsensible hnative, hnone.2, rfl⟩⟩
  · cases hcheck : p.checker.check py s.cls p.name native with
    | error e =>
      rw [hcheck] at hstore
      cases hstore
    | ok stored =>
      rw [hcheck] at hstore
      cases hstore
      refine ⟨stored, h.symm, Or.inl ?_⟩
      rw [Property.accept, hnative]
      exact hcheck

/-- An accepted value is stored. -/
theorem Schema.setProperty_accept (hsensible : p.sensible = true) (hvalue : value ≠ .none)
    (h : p.accept py s.cls value = .ok stored) :
    s.setProperty py inner p value = .ok (s.forced (Dict.setItem inner p.name stored) p.name) := by
  obtain ⟨native, hnative, hcheck⟩ := bind_ok h
  have hne : native ≠ .none := fun hnone => hvalue (Property.native_none hsensible (hnone ▸ hnative))
  have hstore : s.store py inner p.name p.checker native = .ok (Dict.setItem inner p.name stored) := by
    rw [Schema.store, if_neg fun hnone => hne hnone.1, hcheck]
    rfl
  rw [Schema.setProperty, hnative]
  change (s.store py inner p.name p.checker native).bind _ = _
  rw [hstore]
  exact Schema.constrain_eq s _ p.name

/-- A value that the property had is stored as it is. -/
theorem Schema.setProperty_restore (hsensible : p.sensible = true) (h : p.accept py s.cls value = .ok value) :
    s.setProperty py inner p value = .ok (s.forced (Dict.setItem inner p.name value) p.name) := by
  by_cases hvalue : value = .none
  · subst hvalue
    obtain ⟨native, hnative, hcheck⟩ := bind_ok h
    cases hnative
    have hstore : s.store py inner p.name p.checker .none = .ok (Dict.setItem inner p.name .none) := by
      rw [Schema.store]
      split_ifs
      · rfl
      · rw [hcheck]
        rfl
    change (s.store py inner p.name p.checker .none).bind _ = _
    rw [hstore]
    exact Schema.constrain_eq s _ p.name
  · exact Schema.setProperty_accept hsensible hvalue h

/-! ## The constraint -/

theorem read_forced (s : Schema) (inner : Inner) (name other : String) :
    (s.forced inner name).read other =
      if s.constrained ∧ (name = "transfer_backend" ∨ name = "protocol") ∧ inner.read "transfer_backend" = rclone ∧
        inner.read "protocol" ≠ sftp ∧ other = "protocol" then sftp else inner.read other := by
  unfold Schema.forced
  by_cases h : s.constrained ∧ (name = "transfer_backend" ∨ name = "protocol") ∧ inner.read "transfer_backend" = rclone ∧
      inner.read "protocol" ≠ sftp
  · rw [if_pos h, read_setItem]
    by_cases hother : "protocol" = other
    · rw [if_pos hother, if_pos ⟨h.1, h.2.1, h.2.2.1, h.2.2.2, hother.symm⟩]
    · rw [if_neg hother, if_neg fun hc => hother hc.2.2.2.2.symm]
  · rw [if_neg h, if_neg fun hc => h ⟨hc.1, hc.2.1, hc.2.2.1, hc.2.2.2.1⟩]

/-- Every call leaves the protocol that rclone asks for. -/
theorem Schema.Constrained.set (h : s.Constrained inner) (name : String) (value : Value) :
    s.Constrained (s.forced (Dict.setItem inner name value) name) := by
  intro hconstrained hbackend
  rw [read_forced, if_neg (by simp), read_setItem] at hbackend
  rw [read_forced]
  split_ifs with hforce
  · rfl
  · by_contra hprotocol
    by_cases hname : name = "transfer_backend" ∨ name = "protocol"
    · exact hforce ⟨hconstrained, hname, by rw [read_setItem]; exact hbackend, hprotocol, rfl⟩
    · rw [not_or] at hname
      rw [if_neg hname.1] at hbackend
      rw [read_setItem, if_neg hname.2] at hprotocol
      exact hprotocol (h hconstrained hbackend)

theorem forced_keys (inner : Inner) (name : String) (h : s.constrained = true → "protocol" ∈ inner.map Prod.fst) :
    (s.forced inner name).map Prod.fst = inner.map Prod.fst := by
  unfold Schema.forced
  split_ifs with hforce
  · exact setItem_same_keys (h hforce.1) _
  · rfl

theorem foldlM_cons_ok {α β ε : Type} {f : β → α → Except ε β} {init result : β} {a : α} {as : List α}
    (h : (a :: as).foldlM f init = .ok result) : ∃ next, f init a = .ok next ∧ as.foldlM f next = .ok result := by
  rw [List.foldlM_cons] at h
  exact bind_ok h

/-! ## What `from_dict` stores -/

/-- Every property has a value that it accepted from the dict. -/
structure Schema.Has (s : Schema) (Q : Property → Value → Prop) (inner : Inner) : Prop where
  names : inner.map Prod.fst = s.properties.map Property.name
  values : ∀ p ∈ s.properties, Q p (inner.read p.name)

theorem Schema.take_fold {fields : Fields} {Q : Property → Value → Prop} (hs : s.WellFormed)
    (hprotocol : s.constrained = true → "protocol" ∈ s.properties.map Property.name)
    (hvalues : ∀ p ∈ s.properties, ∀ value stored, Dict.getItem fields (codes p.name) = some value →
      (p.accept py s.cls value = .ok stored ∨ value = .none ∧ stored = .none) → Q p stored)
    (hsftp : ∀ p ∈ s.properties, s.constrained = true → p.name = "protocol" → Q p sftp)
    {ps : List Property} (done : List Property) (hps : ∀ p ∈ ps, p ∈ s.properties) (hdone : ∀ p ∈ done, p ∈ s.properties)
    (hnodup : ((done ++ ps).map Property.name).Nodup) (hnames : inner.map Prod.fst = s.properties.map Property.name)
    (hread : ∀ p ∈ done, Q p (inner.read p.name)) (hconstrained : s.Constrained inner)
    (h : ps.foldlM (s.take py fields) inner = .ok inner') :
    inner'.map Prod.fst = s.properties.map Property.name ∧ (∀ p ∈ done ++ ps, Q p (inner'.read p.name)) ∧ s.Constrained inner' := by
  induction ps generalizing inner done with
  | nil =>
    cases h
    exact ⟨hnames, by simpa using hread, hconstrained⟩
  | cons p ps ih =>
    obtain ⟨next, htake, hrest⟩ := foldlM_cons_ok h
    unfold Schema.take at htake
    split at htake
    · next value hvalue =>
      obtain ⟨stored, rfl, hstored⟩ := Schema.setProperty_ok (hs.sensible p (hps p List.mem_cons_self)) htake
      have hmem : p.name ∈ inner.map Prod.fst := hnames ▸ List.mem_map_of_mem (hps p List.mem_cons_self)
      have hnames' : (s.forced (Dict.setItem inner p.name stored) p.name).map Prod.fst = s.properties.map Property.name := by
        rw [forced_keys, setItem_same_keys hmem, hnames]
        intro hc
        rw [setItem_same_keys hmem, hnames]
        exact hprotocol hc
      have hmove : done ++ p :: ps = (done ++ [p]) ++ ps := by simp
      rw [hmove] at hnodup ⊢
      refine ih (done ++ [p]) (fun q hq => hps q (List.mem_cons_of_mem _ hq)) ?_ hnodup hnames' ?_
        (hconstrained.set p.name stored) hrest
      · intro q hq
        rcases List.mem_append.mp hq with hq | hq
        · exact hdone q hq
        · rw [List.mem_singleton.mp hq]
          exact hps p List.mem_cons_self
      · intro q hq
        have hqs : q ∈ s.properties := by
          rcases List.mem_append.mp hq with hq | hq
          · exact hdone q hq
          · rw [List.mem_singleton.mp hq]
            exact hps p List.mem_cons_self
        rw [read_forced]
        split_ifs with hforce
        · exact hsftp q hqs hforce.1 hforce.2.2.2.2
        · rw [read_setItem]
          rcases List.mem_append.mp hq with hq | hq
          · have hne : p.name ≠ q.name := by
              intro heq
              rw [List.map_append, List.nodup_append, List.map_append] at hnodup
              have hdisjoint := (List.nodup_append.mp hnodup.1).2.2
              exact hdisjoint q.name (List.mem_map_of_mem hq) p.name (by simp) heq.symm
            rw [if_neg hne]
            exact hread q hq
          · rw [List.mem_singleton.mp hq, if_pos rfl]
            exact hvalues p (hps p List.mem_cons_self) value stored hvalue (hstored.imp id fun hnone => ⟨hnone.1, hnone.2.2⟩)
    · cases htake

/-- What a section holds after `from_dict`. -/
theorem Schema.fromDict_has {fields : Fields} {Q : Property → Value → Prop} (hs : s.WellFormed)
    (hprotocol : s.constrained = true → "protocol" ∈ s.properties.map Property.name)
    (hvalues : ∀ p ∈ s.properties, ∀ value stored, Dict.getItem fields (codes p.name) = some value →
      (p.accept py s.cls value = .ok stored ∨ value = .none ∧ stored = .none) → Q p stored)
    (hsftp : ∀ p ∈ s.properties, s.constrained = true → p.name = "protocol" → Q p sftp)
    (hinitial : s.Constrained s.initial) (h : s.fromDict py fields = .ok inner) : s.Has Q inner ∧ s.Constrained inner := by
  obtain ⟨result, hfold, hextra⟩ := bind_ok h
  have hperm : s.dir.Perm s.properties := List.perm_insertionSort _ _
  have hstart : s.initial.map Prod.fst = s.properties.map Property.name := by simp [Schema.initial]
  obtain ⟨hnames, hread, hconstrained⟩ := Schema.take_fold hs hprotocol hvalues hsftp []
    (fun p hp => hperm.mem_iff.mp hp) (by simp) ((hperm.map Property.name).nodup_iff.mpr hs.nodup)
    hstart (by simp) hinitial hfold
  split at hextra
  · cases hextra
    exact ⟨⟨hnames, fun p hp => hread p (hperm.mem_iff.mpr hp)⟩, hconstrained⟩
  · cases hextra

/-! ## When `from_dict` gives a section -/

/-- What is the same for every property is the same. -/
theorem inner_ext {t : Inner} (hs : s.WellFormed) (hinner : inner.map Prod.fst = s.properties.map Property.name)
    (ht : t.map Prod.fst = s.properties.map Property.name) (h : ∀ p ∈ s.properties, inner.read p.name = t.read p.name) :
    inner = t := by
  refine items_ext (hinner.trans ht.symm) (hinner ▸ hs.nodup) fun key => ?_
  by_cases hkey : key ∈ s.properties.map Property.name
  · obtain ⟨p, hp, rfl⟩ := List.mem_map.mp hkey
    obtain ⟨a, ha⟩ := Option.isSome_iff_exists.mp (getItem_isSome.mpr (hinner ▸ hkey))
    obtain ⟨b, hb⟩ := Option.isSome_iff_exists.mp (getItem_isSome.mpr (ht ▸ hkey))
    have hread := h p hp
    rw [Inner.read, Inner.read, ha, hb] at hread
    rw [ha, hb]
    exact congrArg some hread
  · have hnone : ∀ items : Inner, items.map Prod.fst = s.properties.map Property.name → Dict.getItem items key = none := by
      intro items hitems
      rw [← Option.not_isSome_iff_eq_none, getItem_isSome, hitems]
      exact hkey
    rw [hnone inner hinner, hnone t ht]

theorem Schema.take_target {fields : Fields} {t : Inner} (hs : s.WellFormed)
    (hvalues : ∀ p ∈ s.properties, ∃ value, Dict.getItem fields (codes p.name) = some value ∧ value ≠ .none ∧
      p.accept py s.cls value = .ok (t.read p.name))
    (ht : s.Constrained t)
    (hinitial : s.constrained = true → s.initial.read "transfer_backend" ≠ rclone ∧ s.initial.read "protocol" = sftp)
    {ps : List Property} (hps : ∀ p ∈ ps, p ∈ s.properties) (hnames : inner.map Prod.fst = s.properties.map Property.name)
    (hread : ∀ name, inner.read name = s.initial.read name ∨ inner.read name = t.read name) :
    ∃ inner', ps.foldlM (s.take py fields) inner = .ok inner' ∧ inner'.map Prod.fst = s.properties.map Property.name ∧
      (∀ name, inner'.read name = inner.read name ∨ inner'.read name = t.read name) ∧
      ∀ p ∈ ps, inner'.read p.name = t.read p.name := by
  induction ps generalizing inner with
  | nil => exact ⟨inner, rfl, hnames, fun _ => Or.inl rfl, by simp⟩
  | cons p ps ih =>
    have hp := hps p List.mem_cons_self
    obtain ⟨value, hvalue, hne, haccept⟩ := hvalues p hp
    have hmem : p.name ∈ inner.map Prod.fst := hnames ▸ List.mem_map_of_mem hp
    let stored := Dict.setItem inner p.name (t.read p.name)
    have hstored : ∀ name, Inner.read stored name = s.initial.read name ∨ Inner.read stored name = t.read name := by
      intro name
      rw [read_setItem]
      split_ifs with hname
      · exact Or.inr (by rw [hname])
      · exact hread name
    -- rclone is in the section only when it is in the target, whose protocol is sftp
    have hforced : s.forced stored p.name = stored := by
      unfold Schema.forced
      rw [if_neg]
      rintro ⟨hconstrained, -, hbackend, hprotocol⟩
      obtain ⟨hbackend₀, hprotocol₀⟩ := hinitial hconstrained
      have htarget : t.read "transfer_backend" = rclone := by
        rcases hstored "transfer_backend" with h | h
        · exact absurd (h.symm.trans hbackend) hbackend₀
        · exact h.symm.trans hbackend
      rcases hstored "protocol" with h | h
      · exact hprotocol (h.trans hprotocol₀)
      · exact hprotocol (h.trans (ht hconstrained htarget))
    have htake : s.take py fields inner p = .ok stored := by
      rw [Schema.take, hvalue]
      dsimp only
      rw [Schema.setProperty_accept (hs.sensible p hp) hne haccept]
      exact congrArg Except.ok hforced
    obtain ⟨inner', hfold, hnames', hread', hdone⟩ :=
      ih (fun q hq => hps q (List.mem_cons_of_mem _ hq)) ((setItem_same_keys hmem _).trans hnames) hstored
    refine ⟨inner', ?_, hnames', fun name => ?_, fun q hq => ?_⟩
    · rw [List.foldlM_cons, htake]
      exact hfold
    · rcases hread' name with h | h
      · rw [read_setItem] at h
        split_ifs at h with hname
        · exact Or.inr (by rw [h, hname])
        · exact Or.inl h
      · exact Or.inr h
    · rcases List.mem_cons.mp hq with rfl | hq
      · rcases hread' q.name with h | h
        · rwa [read_setItem, if_pos rfl] at h
        · exact h
      · exact hdone q hq

/-- A dict with an accepted value for each property gives the section of what is stored. -/
theorem Schema.fromDict_target {fields : Fields} {t : Inner} (hs : s.WellFormed)
    (hnames : t.map Prod.fst = s.properties.map Property.name)
    (hvalues : ∀ p ∈ s.properties, ∃ value, Dict.getItem fields (codes p.name) = some value ∧ value ≠ .none ∧
      p.accept py s.cls value = .ok (t.read p.name))
    (hkeys : ∀ item ∈ fields, ∃ p ∈ s.properties, codes p.name = item.1) (ht : s.Constrained t)
    (hinitial : s.constrained = true → s.initial.read "transfer_backend" ≠ rclone ∧ s.initial.read "protocol" = sftp) :
    s.fromDict py fields = .ok t := by
  have hperm : s.dir.Perm s.properties := List.perm_insertionSort _ _
  have hstart : s.initial.map Prod.fst = s.properties.map Property.name := by simp [Schema.initial]
  obtain ⟨inner', hfold, hnames', -, hread⟩ := Schema.take_target hs hvalues ht hinitial
    (fun p hp => hperm.mem_iff.mp hp) hstart (fun _ => Or.inl rfl)
  have hresult : inner' = t := inner_ext hs hnames' hnames fun p hp => hread p (hperm.mem_iff.mpr hp)
  have hextra : fields.filter (fun (item : Codes × Value) => !s.properties.any fun p => decide (codes p.name = item.1)) = [] := by
    refine List.filter_eq_nil_iff.mpr fun item hitem => ?_
    obtain ⟨p, hp, hkey⟩ := hkeys item hitem
    simpa using ⟨p, hp, hkey⟩
  rw [Schema.fromDict, hfold, hextra, hresult]
  rfl

end

end SeedSync.Settings
