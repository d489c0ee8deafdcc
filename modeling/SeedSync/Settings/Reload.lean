import SeedSync.Settings.Loading

/-!
# Saving and loading

`Config.to_str` read by `Config.from_str`, and `Persist.from_file`, which turns every line end into a
line feed.
-/

open SeedSync.Lib

namespace SeedSync.Settings

/-- What `open(path)` makes of the line ends of a text. -/
def universalNewlines : Codes → Codes
  | [] => []
  | 13 :: 10 :: rest => 10 :: universalNewlines rest
  | 13 :: rest => 10 :: universalNewlines rest
  | c :: rest => c :: universalNewlines rest

/-- `from_file` of a file with this content. -/
def fromFile (py : Strings) (content : Codes) : Except LoadError Config := fromStr py (universalNewlines content)

theorem universalNewlines_noReturn (content : Codes) : 13 ∉ universalNewlines content := by
  fun_induction universalNewlines content with
  | case1 => simp
  | case2 rest ih => simpa using ih
  | case3 rest _ ih => simpa using ih
  | case4 c rest _ hc ih => simp [ih, Ne.symm hc]

theorem universalNewlines_eq {content : Codes} (h : 13 ∉ content) : universalNewlines content = content := by
  fun_induction universalNewlines content with
  | case1 => rfl
  | case2 rest ih => simp at h
  | case3 rest _ ih => simp at h
  | case4 c rest _ _ ih => rw [ih fun hmem => h (List.mem_cons_of_mem _ hmem)]

def Inner.reread (inner : Inner) : Inner := inner.map fun item => (item.1, item.2.reread)

/-- The configuration as it is read from its file. -/
def Config.reread (c : Config) : Config where
  general := c.general.reread
  lftp := c.lftp.reread
  validate := c.validate.reread
  controller := c.controller.reread
  web := c.web.reread
  autoqueue := c.autoqueue.reread
  logging := c.logging.reread
  notifications := c.notifications.reread

/-- The options of a section as they are read from its file. -/
def Inner.fields (inner : Inner) : Fields := inner.map fun item => (codes item.1, .str (Ini.reread item.2.text))

section
variable {py : Strings} {s : Schema} {inner : Inner} {fields : Fields}

theorem read_reread (inner : Inner) (name : String) : (Inner.reread inner).read name = (inner.read name).reread := by
  have hget : Dict.getItem (Inner.reread inner) name = (Dict.getItem inner name).map Value.reread :=
    Dict.getItem_map inner Value.reread name
  rw [Inner.read, hget, Inner.read]
  cases Dict.getItem inner name <;> rfl

theorem read_of_mem {item : String × Value} (hnodup : (inner.map Prod.fst).Nodup) (hitem : item ∈ inner) :
    inner.read item.1 = item.2 := by
  rw [Inner.read, (Dict.getItem_eq_some hnodup item.1 item.2).mpr hitem]
  rfl

theorem getItem_fields {p : Property} (h : inner.map Prod.fst = s.properties.map Property.name) (hp : p ∈ s.properties) :
    Dict.getItem inner.fields (codes p.name) = some (.str (Ini.reread (inner.read p.name).text)) := by
  have hsome : (Dict.getItem inner p.name).isSome = true := getItem_isSome.mpr (h ▸ List.mem_map_of_mem hp)
  obtain ⟨value, hvalue⟩ := Option.isSome_iff_exists.mp hsome
  rw [Inner.fields, getItem_map_codes inner (fun v => Value.str (Ini.reread v.text)) p.name, hvalue, Inner.read, hvalue]
  rfl

/-! ## Dicts that are complete -/

/-- A dict with the properties of a section as its keys. -/
def Schema.Complete (s : Schema) (fields : Fields) : Prop := fields.map Prod.fst = s.properties.map fun p => codes p.name

theorem complete_fields (h : inner.map Prod.fst = s.properties.map Property.name) : s.Complete inner.fields := by
  have hnames := congrArg (List.map codes) h
  simpa [Schema.Complete, Inner.fields, List.map_map, Function.comp_def] using hnames

theorem Schema.Complete.key (h : s.Complete fields) (key : String) :
    codes key ∈ fields.map Prod.fst ↔ key ∈ s.properties.map Property.name := by
  have hnames : (s.properties.map fun p => codes p.name) = (s.properties.map Property.name).map codes := by simp
  rw [h, hnames]
  exact List.mem_map_of_injective @codes_injective

theorem Schema.Complete.has (h : s.Complete fields) {key : String} (hkey : key ∈ s.properties.map Property.name) :
    fields.has key = true := by
  rw [Fields.has, getItem_isSome, h.key]
  exact hkey

theorem Schema.Complete.default (h : s.Complete fields) {key : String} {value : Value}
    (hkey : key ∈ s.properties.map Property.name) : fields.default key value = fields := by
  rw [Fields.default, if_pos (h.has hkey)]

theorem Schema.Complete.drop (h : s.Complete fields) {key : String}
    (hkey : key ∉ s.properties.map Property.name) : fields.drop key = fields := by
  refine List.filter_eq_self.mpr fun item hitem => decide_eq_true fun heq => hkey ((h.key key).mp ?_)
  exact heq ▸ List.mem_map_of_mem hitem

theorem Schema.Complete.renamed (h : s.Complete fields) {key older : String} {value : Value}
    (hkey : key ∈ s.properties.map Property.name) (holder : older ∉ s.properties.map Property.name) :
    fields.renamed key older value = fields := by
  rw [Fields.renamed, if_pos (h.has hkey), h.drop holder]

theorem generalFields_complete (h : general.Complete fields) : generalFields py fields = .ok fields := by
  have hlevel : fields.logLevel py = .ok fields := by
    rw [Fields.logLevel, if_pos (h.has (by decide)), h.drop (by decide)]
  unfold generalFields
  dsimp only
  rw [h.drop (by decide), h.default (by decide), h.default (by decide), h.default (by decide), h.default (by decide),
    h.default (by decide), hlevel]
  refine congrArg Except.ok ?_
  dsimp only
  rw [h.default (by decide), h.default (by decide), h.renamed (by decide) (by decide), h.renamed (by decide) (by decide),
    h.default (by decide), h.default (by decide), h.default (by decide), h.default (by decide), h.default (by decide)]

theorem put_same {key : String} {value : Value} (h : Dict.getItem fields (codes key) = some value) :
    fields.put key value = fields := setItem_self h

/-- The backend of a section that was loaded. -/
theorem backend_cases (h : lftp.Loaded py inner) :
    inner.read "transfer_backend" = .str (codes "lftp") ∨ inner.read "transfer_backend" = rclone := by
  obtain ⟨p, hp, hname, hchecker⟩ : ∃ p ∈ lftp.properties, p.name = "transfer_backend" ∧ p.checker = .transferBackend := by
    decide
  obtain ⟨given, -, haccept⟩ := h.has.values p hp
  obtain ⟨native, -, hcheck⟩ := bind_ok haccept
  rw [hchecker, hname] at hcheck
  have hvalue : normalizeTransferBackend py native = inner.read "transfer_backend" := Except.ok.inj hcheck
  rw [← hvalue]
  exact normalizeTransferBackend_cases native

theorem lftpFields_complete (h : lftp.Loaded py inner) : lftpFields py inner.fields = inner.fields := by
  have hcomplete : lftp.Complete inner.fields := complete_fields h.has.names
  have hget : ∀ {name : String} {word : Codes}, (∃ p ∈ lftp.properties, p.name = name) → Plain word →
      inner.read name = .str word → Dict.getItem inner.fields (codes name) = some (.str word) := by
    rintro name word ⟨p, hp, rfl⟩ hplain hread
    rw [getItem_fields h.has.names hp, hread]
    exact congrArg (fun text => some (Value.str text)) hplain.clean.1
  unfold lftpFields
  dsimp only
  rw [hcomplete.default (by decide), hcomplete.default (by decide), hcomplete.default (by decide), hcomplete.default (by decide),
    hcomplete.default (by decide), hcomplete.default (by decide), hcomplete.default (by decide), hcomplete.default (by decide),
    hcomplete.default (by decide)]
  have hsame : ∀ word ∈ ["lftp", "rclone"].map codes, normalizeTransferBackend py (.str word) = .str word := by
    intro word hmem
    have hlower : py.lower (strip word) = word :=
      Word.lower ((by decide : ∀ w ∈ ["lftp", "rclone"].map codes, Word lowerAscii w) word hmem)
    rw [normalizeTransferBackend, hlower, if_pos (by simpa using hmem)]
  rcases backend_cases h with hbackend | hbackend
  · have hfound := hget (by decide) (by decide) hbackend
    rw [hfound, Option.getD_some, hsame _ (by decide), put_same hfound, if_neg (by decide)]
  · have hfound := hget (by decide) (by decide) hbackend
    have hprotocol := hget (by decide) (by decide) (h.constrained rfl hbackend)
    rw [hfound, Option.getD_some, hsame _ (by decide), put_same hfound, if_pos (show Value.str (codes "rclone") = rclone from rfl)]
    exact put_same hprotocol

theorem loggingFields_complete (h : logging.Loaded py inner) : loggingFields inner.fields = inner.fields := by
  obtain ⟨p, hp, hname, hchecker⟩ : ∃ p ∈ logging.properties, p.name = "log_format" ∧ p.checker = .logFormat := by decide
  obtain ⟨given, -, haccept⟩ := h.has.values p hp
  obtain ⟨native, -, hcheck⟩ := bind_ok haccept
  have hfound := getItem_fields h.has.names hp
  rw [hname] at hfound hcheck
  rw [hchecker] at hcheck
  obtain ⟨hsettled, hplain⟩ := logFormat_settled hcheck
  obtain ⟨word, hword, -⟩ := hsettled.text
  have hagain := hsettled.again
  rw [hword] at hagain hfound hplain
  change _ = some (Value.str (Ini.reread word)) at hfound
  change Plain word at hplain
  rw [hplain.clean.1] at hfound
  have hne : strip word ≠ [] := by
    intro hempty
    have hlower : py.lower [] = [] := py.lower_ascii [] (by simp)
    rw [normalizeLogFormat, normalizeWord, hempty, hlower, if_pos rfl] at hagain
    cases hagain
  rw [loggingFields, hfound]
  dsimp only
  rw [if_neg hne]

theorem getItem_foldl {items base : Fields} (hnodup : (items.map Prod.fst).Nodup) (key : Codes) :
    Dict.getItem (items.foldl (fun merged item => Dict.setItem merged item.1 item.2) base) key =
      (Dict.getItem items key).or (Dict.getItem base key) := by
  induction items generalizing base with
  | nil => rfl
  | cons item items ih =>
    rw [List.map_cons, List.nodup_cons] at hnodup
    rw [List.foldl_cons, ih hnodup.2, Dict.getItem_setItem, Dict.getItem]
    by_cases hkey : item.1 = key
    · have hnone : Dict.getItem items key = none := by
        rw [← Option.not_isSome_iff_eq_none, getItem_isSome, ← hkey]
        exact hnodup.1
      rw [if_pos hkey, if_pos hkey, hnone]
      rfl
    · rw [if_neg hkey, if_neg hkey]

theorem foldl_keys {items base : Fields} (h : ∀ item ∈ items, item.1 ∈ base.map Prod.fst) :
    (items.foldl (fun merged item => Dict.setItem merged item.1 item.2) base).map Prod.fst = base.map Prod.fst := by
  induction items generalizing base with
  | nil => rfl
  | cons item items ih =>
    have hkeys := setItem_same_keys (h item List.mem_cons_self) item.2
    rw [List.foldl_cons, ih fun i hi => hkeys ▸ h i (List.mem_cons_of_mem _ hi), hkeys]

theorem notificationsFields_complete (h : notifications.Complete fields) : notificationsFields fields = fields := by
  have hbase : (Inner.asDict notifications.initial).map Prod.fst = fields.map Prod.fst := by
    rw [h]
    decide
  have hnodup : (fields.map Prod.fst).Nodup := by
    rw [h]
    decide
  have hsame : ∀ item ∈ fields, item.1 ∈ (Inner.asDict notifications.initial).map Prod.fst := fun item hitem =>
    hbase ▸ List.mem_map_of_mem hitem
  have hkeys := foldl_keys hsame
  refine items_ext (hkeys.trans hbase) (hkeys ▸ hbase ▸ hnodup) fun key => ?_
  rw [notificationsFields, getItem_foldl hnodup]
  cases hfound : Dict.getItem fields key with
  | some value => rfl
  | none =>
    rw [Option.none_or, ← Option.not_isSome_iff_eq_none, getItem_isSome, hbase, ← getItem_isSome, hfound]
    simp

/-! ## A section -/

/-- A section whose texts lose no more than the blanks around them gives, from its file, the section reread. -/
theorem Schema.fromDict_fields (hs : s ∈ schemas) (h : s.Loaded py inner)
    (hkept : ∀ p ∈ s.properties, Kept (inner.read p.name).text) : s.fromDict py inner.fields = .ok inner.reread := by
  have hwell := schemas_wellFormed s hs
  refine Schema.fromDict_target hwell ?_ ?_ ?_ ?_ (schemas_initial s hs)
  · have hmap : inner.reread.map Prod.fst = inner.map Prod.fst := by simp [Inner.reread]
    rw [hmap, h.has.names]
  · intro p hp
    obtain ⟨given, htakes, haccept⟩ := h.has.values p hp
    refine ⟨_, getItem_fields h.has.names hp, by simp, ?_⟩
    rw [read_reread]
    exact Property.accept_reread (hwell.sensible p hp) htakes haccept (hkept p hp)
  · intro item hitem
    have hmem : item.1 ∈ s.properties.map fun p => codes p.name := complete_fields h.has.names ▸ List.mem_map_of_mem hitem
    obtain ⟨p, hp, hname⟩ := List.mem_map.mp hmem
    exact ⟨p, hp, hname⟩
  · intro hconstrained hbackend
    have hlftp : s = lftp := by
      revert hs hconstrained
      clear * -
      revert s
      decide
    subst hlftp
    rw [read_reread] at hbackend ⊢
    have hrclone : inner.read "transfer_backend" = rclone := by
      rcases backend_cases h with hcase | hcase
      · rw [hcase] at hbackend
        change Value.str (Ini.reread (codes "lftp")) = rclone at hbackend
        rw [(Plain.clean (by decide)).1] at hbackend
        cases hbackend
      · exact hcase
    rw [h.constrained hconstrained hrclone]
    exact congrArg Value.str (Plain.clean (by decide)).1

/-! ## The file -/

/-- A name of lower letters, digits and underscores. -/
def PlainName (name : Codes) : Prop := name ≠ [] ∧ ∀ c ∈ name, (97 ≤ c ∧ c ≤ 122) ∨ c = 95 ∨ (48 ≤ c ∧ c ≤ 57)

instance (name : Codes) : Decidable (PlainName name) := inferInstanceAs (Decidable (_ ∧ _))

theorem PlainName.char {c : Nat} (h : (97 ≤ c ∧ c ≤ 122) ∨ c = 95 ∨ (48 ≤ c ∧ c ≤ 57)) :
    isSpace c = false ∧ Ini.isDelimiter c = false ∧ lowerAscii c = c ∧ c < 128 ∧ c ≠ 10 ∧ c ≠ 13 ∧ c ≠ 35 ∧ c ≠ 59 ∧ c ≠ 91 := by
  have hspace : isSpace c = false := by
    simp only [isSpace, Bool.or_eq_false_iff, Bool.and_eq_false_iff, decide_eq_false_iff_not, List.contains_eq_mem]
    refine ⟨⟨⟨?_, by omega⟩, by omega⟩, by omega⟩
    simp
    omega
  refine ⟨hspace, ?_, ?_, by omega, by omega, by omega, by omega, by omega, by omega⟩
  · simp only [Ini.isDelimiter, Bool.or_eq_false_iff, beq_eq_false_iff_ne]
    omega
  · rw [lowerAscii, if_neg (by omega)]

theorem PlainName.good {name : Codes} (h : PlainName name) : Ini.GoodOption py.lower name where
  lowered := by
    rw [py.lower_ascii name fun c hc => (PlainName.char (h.2 c hc)).2.2.2.1]
    have hmap := List.map_congr_left fun c hc => (PlainName.char (h.2 c hc)).2.2.1
    rw [hmap, List.map_id']
  oneLine := fun hmem => (PlainName.char (h.2 10 hmem)).2.2.2.2.1 rfl
  undelimited := fun c hc => (PlainName.char (h.2 c hc)).2.1
  first := by
    obtain ⟨c, rest, rfl⟩ := List.exists_cons_of_ne_nil h.1
    have hc := PlainName.char (h.2 c List.mem_cons_self)
    exact ⟨c, rest, rfl, hc.1, hc.2.2.2.2.2.2⟩
  last := by
    refine ⟨name.dropLast, name.getLast h.1, (List.dropLast_append_getLast h.1).symm, ?_⟩
    exact (PlainName.char (h.2 _ (List.getLast_mem h.1))).1

theorem schemas_names : ∀ s ∈ schemas, ∀ p ∈ s.properties, PlainName (codes p.name) := by decide

/-- The sections of the file. -/
def Config.sections (c : Config) : List (Codes × Ini.Options) :=
  c.parts.map fun part => (codes part.1.cls, part.2.map fun item => (codes item.1, item.2.text))

theorem toStr_sections (c : Config) : c.toStr = Ini.write { sections := c.sections } := rfl

theorem written_sections {c : Config} (h : c.Loaded py) : Ini.Written py.lower c.sections := by
  have hcls : c.sections.map Prod.fst = schemas.map fun s => codes s.cls := by
    rw [← parts_schemas c]
    simp [Config.sections]
  have hsection : ∀ s ∈ schemas, Ini.GoodSection (codes s.cls) := by
    have hgood : ∀ s ∈ schemas, codes s.cls ≠ [] ∧ 10 ∉ codes s.cls ∧ codes s.cls ≠ Ini.defaultSection := by decide
    exact fun s hs => ⟨(hgood s hs).1, (hgood s hs).2.1, (hgood s hs).2.2⟩
  have hpart : ∀ entry ∈ c.sections, ∃ s ∈ schemas, entry.1 = codes s.cls ∧
      entry.2.map Prod.fst = s.properties.map fun p => codes p.name := by
    intro entry hentry
    obtain ⟨part, hmem, rfl⟩ := List.mem_map.mp hentry
    refine ⟨part.1, parts_schemas c ▸ List.mem_map_of_mem hmem, rfl, ?_⟩
    have hnames := congrArg (List.map codes) (h part hmem).has.names
    simpa [List.map_map, Function.comp_def] using hnames
  refine ⟨?_, fun entry hentry => ?_, fun entry hentry => ?_, fun entry hentry item hitem => ?_⟩
  · rw [hcls]
    decide
  · obtain ⟨s, hs, hname, -⟩ := hpart entry hentry
    exact hname ▸ hsection s hs
  · obtain ⟨s, hs, -, hnames⟩ := hpart entry hentry
    rw [hnames]
    have hnodup := (schemas_wellFormed s hs).nodup.map codes_injective
    rwa [List.map_map] at hnodup
  · obtain ⟨s, hs, -, hnames⟩ := hpart entry hentry
    obtain ⟨p, hp, hname⟩ := List.mem_map.mp (hnames ▸ List.mem_map_of_mem hitem)
    exact hname ▸ (schemas_names s hs p hp).good

/-- The dict that the parser returns for the file. -/
theorem parsedDict_written (c : Config) :
    parsedDict { sections := c.sections.map fun entry => (entry.1, Ini.rereadOptions entry.2) } =
      c.parts.map fun part => (codes part.1.cls, part.2.fields) := by
  simp [parsedDict, Ini.Parsed.options, Config.sections, Ini.rereadOptions, Inner.fields, Function.comp_def]

/-- The dict of the file. -/
def Config.fileDict (c : Config) : List (Codes × Fields) := c.parts.map fun part => (codes part.1.cls, part.2.fields)

theorem getItem_fileDict (c : Config) {name : String} {inner : Inner} (h : Dict.getItem c.asDict name = some inner) :
    Dict.getItem c.fileDict (codes name) = some inner.fields := by
  have hmap : c.fileDict = c.asDict.map fun item => (codes item.1, item.2.fields) := by
    rw [parts_asDict, List.map_map]
    rfl
  rw [hmap, getItem_map_codes c.asDict Inner.fields name, h]
  rfl

theorem checkSection_fileDict (c : Config) {name : String} {inner : Inner} (h : Dict.getItem c.asDict name = some inner) :
    checkSection c.fileDict name = .ok inner.fields := by
  rw [checkSection, getItem_fileDict c h]

theorem optionalSection_fileDict (c : Config) {name : String} {inner : Inner} (h : Dict.getItem c.asDict name = some inner) :
    optionalSection c.fileDict name = inner.fields := by
  rw [optionalSection, getItem_fileDict c h]
  rfl

theorem legacySecret_none (fields : Fields) : legacySecret (.str []) fields = fields := if_neg fun h => by cases h.1

theorem ok_bind {α β ε : Type} {x : Except ε α} {a : α} {f : α → Except ε β} (h : x = .ok a) : (x >>= f) = f a := by
  rw [h]
  rfl

/-- The configuration that is read of the file of one that was loaded. -/
theorem fromDict_fileDict {c : Config} (h : c.Loaded py) (hkept : c.Texts Kept) : fromDict py c.fileDict = .ok c.reread := by
  have hsection : ∀ s inner, (s, inner) ∈ c.parts → s.Complete inner.fields ∧ s.fromDict py inner.fields = .ok inner.reread := by
    intro s inner hpart
    have hschema : s ∈ schemas := parts_schemas c ▸ List.mem_map_of_mem (f := Prod.fst) hpart
    exact ⟨complete_fields (h _ hpart).has.names, Schema.fromDict_fields hschema (h _ hpart) (hkept _ hpart)⟩
  obtain ⟨hgeneralC, hgeneral⟩ := hsection Settings.general c.general (by simp [Config.parts])
  obtain ⟨-, hlftp⟩ := hsection Settings.lftp c.lftp (by simp [Config.parts])
  obtain ⟨hvalidateC, hvalidate⟩ := hsection Settings.validate c.validate (by simp [Config.parts])
  obtain ⟨hcontrollerC, hcontroller⟩ := hsection Settings.controller c.controller (by simp [Config.parts])
  obtain ⟨-, hweb⟩ := hsection Settings.web c.web (by simp [Config.parts])
  obtain ⟨hautoqueueC, hautoqueue⟩ := hsection Settings.autoqueue c.autoqueue (by simp [Config.parts])
  obtain ⟨-, hlogging⟩ := hsection Settings.logging c.logging (by simp [Config.parts])
  obtain ⟨hnotificationsC, hnotifications⟩ := hsection Settings.notifications c.notifications (by simp [Config.parts])
  have hlftpLoaded := h (Settings.lftp, c.lftp) (by simp [Config.parts])
  have hloggingLoaded := h (Settings.logging, c.logging) (by simp [Config.parts])
  have hsecret : Dict.getItem c.general.fields (codes "webhook_secret") = none := by
    rw [← Option.not_isSome_iff_eq_none, getItem_isSome, hgeneralC.key]
    decide
  have hknown : c.fileDict.filter (fun item => !(sectionNames.map codes).contains item.1) = [] := by
    refine List.filter_eq_nil_iff.mpr fun item hitem => ?_
    obtain ⟨part, hpart, rfl⟩ := List.mem_map.mp hitem
    have hnames : ∀ s ∈ schemas, (sectionNames.map codes).contains (codes s.cls) = true := by decide
    simp only [hnames part.1 (parts_schemas c ▸ List.mem_map_of_mem hpart)]
    decide
  unfold fromDict
  refine (ok_bind (checkSection_fileDict c rfl)).trans ?_
  dsimp only
  rw [Schema.Complete.drop hgeneralC (by decide), ok_bind (generalFields_complete hgeneralC), ok_bind hgeneral,
    ok_bind (checkSection_fileDict c rfl), lftpFields_complete hlftpLoaded, ok_bind hlftp,
    optionalSection_fileDict c rfl, Schema.Complete.default hvalidateC (by decide), ok_bind hvalidate,
    ok_bind (checkSection_fileDict c rfl), Schema.Complete.default hcontrollerC (by decide), ok_bind hcontroller,
    ok_bind (checkSection_fileDict c rfl), ok_bind hweb,
    ok_bind (checkSection_fileDict c rfl), Schema.Complete.default hautoqueueC (by decide), ok_bind hautoqueue,
    optionalSection_fileDict c rfl, loggingFields_complete hloggingLoaded, ok_bind hlogging,
    optionalSection_fileDict c rfl, hsecret, Option.getD_none, legacySecret_none, notificationsFields_complete hnotificationsC,
    ok_bind hnotifications, hknown]
  rfl

/-- The file of a configuration whose texts lose no more than the blanks around them is read as the configuration reread. -/
theorem fromStr_toStr {c : Config} (h : c.Loaded py) (hkept : c.Texts Kept) : fromStr py c.toStr = .ok c.reread := by
  rw [fromStr, toStr_sections, Ini.read_write (written_sections h)]
  dsimp only
  rw [parsedDict_written, ← Config.fileDict, fromDict_fileDict h hkept]
  rfl

/-- No text of the file has a carriage return when no text of the configuration has one. -/
theorem toStr_noReturn {c : Config} (h : c.Loaded py) (hreturn : c.Texts fun text => 13 ∉ text) : 13 ∉ c.toStr := by
  have hindented : ∀ text : Codes, 13 ∉ text → 13 ∉ Ini.indented text := by
    intro text htext hmem
    obtain ⟨d, hd, hchar⟩ := List.mem_flatMap.mp hmem
    split_ifs at hchar
    · simp at hchar
    · exact htext (List.mem_singleton.mp hchar ▸ hd)
  rw [toStr_sections, Ini.write, if_pos rfl, List.nil_append]
  intro hmem
  obtain ⟨entry, hentry, hmem⟩ := List.mem_flatMap.mp hmem
  obtain ⟨part, hpart, rfl⟩ := List.mem_map.mp hentry
  have hs : part.1 ∈ schemas := parts_schemas c ▸ List.mem_map_of_mem hpart
  have hcls : 13 ∉ codes part.1.cls := (by decide : ∀ s ∈ schemas, 13 ∉ codes s.cls) part.1 hs
  unfold Ini.writeSection at hmem
  rcases List.mem_append.mp hmem with hmem | hmem
  · rcases List.mem_append.mp hmem with hmem | hmem
    · simp [hcls] at hmem
    · obtain ⟨option, hoption, hmem⟩ := List.mem_flatMap.mp hmem
      obtain ⟨item, hitem, rfl⟩ := List.mem_map.mp hoption
      have hname : item.1 ∈ part.1.properties.map Property.name := (h part hpart).has.names ▸ List.mem_map_of_mem hitem
      obtain ⟨p, hp, hpname⟩ := List.mem_map.mp hname
      have hnodup : (part.2.map Prod.fst).Nodup := (h part hpart).has.names ▸ (schemas_wellFormed part.1 hs).nodup
      have hvalue : 13 ∉ item.2.text := by
        rw [← read_of_mem hnodup hitem, ← hpname]
        exact hreturn part hpart p hp
      have hkey : 13 ∉ codes item.1 := fun hmem =>
        (PlainName.char ((schemas_names part.1 hs p hp).2 13 (hpname ▸ hmem))).2.2.2.2.2.1 rfl
      simp [Ini.writeOption, hkey, hindented _ hvalue] at hmem
      exact absurd hmem (by decide)
  · simp at hmem

/-! ## Loading again -/

theorem Inner.reread_clean (hs : s.WellFormed) (hnames : inner.map Prod.fst = s.properties.map Property.name)
    (hclean : ∀ p ∈ s.properties, Clean (inner.read p.name).text) : inner.reread = inner := by
  refine inner_ext hs ?_ hnames fun p hp => ?_
  · rw [← hnames]
    simp [Inner.reread]
  · rw [read_reread]
    have hp := hclean p hp
    generalize inner.read p.name = value at hp
    cases value with
    | str text => exact congrArg Value.str hp.1
    | none | bool | int => rfl

theorem Config.LoadedText.loaded {c : Config} {Q : Codes → Prop} (h : c.LoadedText py Q) : c.Loaded py := fun part hpart =>
  ⟨⟨(h part hpart).1.names, fun p hp => ((h part hpart).1.values p hp).1⟩, (h part hpart).2⟩

theorem Config.LoadedText.texts {c : Config} {Q : Codes → Prop} (h : c.LoadedText py Q) : c.Texts Q := fun part hpart p hp =>
  ((h part hpart).1.values p hp).2

theorem Config.Texts.imp {c : Config} {Q R : Codes → Prop} (h : c.Texts Q) (himp : ∀ text, Q text → R text) : c.Texts R :=
  fun part hpart p hp => himp _ (h part hpart p hp)

theorem Config.reread_clean {c : Config} (h : c.Loaded py) (hclean : c.Texts Clean) : c.reread = c := by
  have hpart : ∀ s inner, (s, inner) ∈ c.parts → inner.reread = inner := by
    intro s inner hpart
    have hschema : s ∈ schemas := parts_schemas c ▸ List.mem_map_of_mem (f := Prod.fst) hpart
    exact Inner.reread_clean (schemas_wellFormed s hschema) (h _ hpart).has.names (hclean _ hpart)
  rw [Config.reread, hpart Settings.general c.general (by simp [Config.parts]),
    hpart Settings.lftp c.lftp (by simp [Config.parts]), hpart Settings.validate c.validate (by simp [Config.parts]),
    hpart Settings.controller c.controller (by simp [Config.parts]), hpart Settings.web c.web (by simp [Config.parts]),
    hpart Settings.autoqueue c.autoqueue (by simp [Config.parts]), hpart Settings.logging c.logging (by simp [Config.parts]),
    hpart Settings.notifications c.notifications (by simp [Config.parts])]

/-- Loading a settings file, saving what was loaded and loading that again is loading it once. -/
theorem settings_reload (content : Codes) :
    (fromFile py content).bind (fun c => fromFile py c.toStr) = fromFile py content := by
  cases hload : fromFile py content with
  | error e => rfl
  | ok c =>
    have hloaded : c.LoadedText py Clean := fromStr_loaded (universalNewlines_noReturn content) hload
    have hclean := hloaded.texts
    have hnewlines : universalNewlines c.toStr = c.toStr :=
      universalNewlines_eq (toStr_noReturn hloaded.loaded (hclean.imp fun _ h => h.2))
    rw [Except.bind, fromFile, hnewlines, fromStr_toStr hloaded.loaded (hclean.imp fun _ h => .inl h.1), Config.reread_clean hloaded.loaded hclean]

end

end SeedSync.Settings
