import SeedSync.Settings.Sections

/-!
# What loading accepts

Every value of a configuration that was loaded was accepted by its property, and its text survives the
file.
-/

open SeedSync.Lib

namespace SeedSync.Settings

def schemas : List Schema := [general, lftp, validate, controller, web, autoqueue, logging, notifications]

instance (s : Schema) : Decidable s.WellFormed :=
  decidable_of_iff ((s.properties.map Property.name).Nodup ∧ ∀ p ∈ s.properties, p.sensible = true)
    ⟨fun h => ⟨h.1, h.2⟩, fun h => ⟨h.nodup, h.sensible⟩⟩

theorem schemas_wellFormed : ∀ s ∈ schemas, s.WellFormed := by decide

theorem schemas_protocol : ∀ s ∈ schemas, s.constrained = true → "protocol" ∈ s.properties.map Property.name := by decide

/-- A section starts without rclone, with sftp. -/
theorem schemas_initial : ∀ s ∈ schemas, s.constrained = true →
    s.initial.read "transfer_backend" ≠ rclone ∧ s.initial.read "protocol" = sftp := by decide

/-- The sections with their classes. -/
def Config.parts (c : Config) : List (Schema × Inner) :=
  [(Settings.general, c.general), (Settings.lftp, c.lftp), (Settings.validate, c.validate),
    (Settings.controller, c.controller), (Settings.web, c.web), (Settings.autoqueue, c.autoqueue),
    (Settings.logging, c.logging), (Settings.notifications, c.notifications)]

theorem parts_schemas (c : Config) : c.parts.map Prod.fst = schemas := rfl

theorem parts_asDict (c : Config) : c.asDict = c.parts.map fun part => (part.1.cls, part.2) := rfl

/-- A value that the property stores of a value it takes. -/
def Property.Stores (py : Strings) (cls : String) (p : Property) (value : Value) : Prop :=
  ∃ given, p.Takes py given ∧ p.accept py cls given = .ok value

/-- Every value was accepted, and with rclone the protocol is sftp. -/
structure Schema.Loaded (py : Strings) (s : Schema) (inner : Inner) : Prop where
  has : s.Has (Property.Stores py s.cls) inner
  constrained : s.Constrained inner

def Config.Loaded (py : Strings) (c : Config) : Prop := ∀ part ∈ c.parts, part.1.Loaded py part.2

/-- The text of every value has a property. -/
def Config.Texts (Q : Codes → Prop) (c : Config) : Prop := ∀ part ∈ c.parts, ∀ p ∈ part.1.properties, Q (part.2.read p.name).text

/-! ## The values of a dict -/

/-- A text that survives the file, or a value of its property's kind. -/
def Schema.Allows (py : Strings) (s : Schema) (key : Codes) (value : Value) : Prop :=
  (∃ text, value = .str text ∧ Clean text) ∨
    ∃ p ∈ s.properties, codes p.name = key ∧ p.Takes py value ∧ ∀ text, value ≠ .str text

def Schema.AllowsAll (py : Strings) (s : Schema) (fields : Fields) : Prop :=
  ∀ key value, Dict.getItem fields key = some value → s.Allows py key value

section
variable {py : Strings} {s : Schema} {fields : Fields} {key older : String} {value : Value}

theorem Schema.AllowsAll.put (h : s.AllowsAll py fields) (hvalue : s.Allows py (codes key) value) :
    s.AllowsAll py (fields.put key value) := by
  intro other v hv
  rw [Fields.put, Dict.getItem_setItem] at hv
  split_ifs at hv with hkey
  · cases hv
    exact hkey ▸ hvalue
  · exact h other v hv

theorem Schema.AllowsAll.default (h : s.AllowsAll py fields) (hvalue : s.Allows py (codes key) value) :
    s.AllowsAll py (fields.default key value) := by
  unfold Fields.default
  split_ifs
  · exact h
  · exact h.put hvalue

theorem getItem_filter {κ ν : Type} [DecidableEq κ] (items : List (κ × ν)) (p : κ → Bool) (key : κ) :
    Dict.getItem (items.filter fun item => p item.1) key = if p key then Dict.getItem items key else none := by
  induction items with
  | nil => simp [Dict.getItem]
  | cons item items ih =>
    obtain ⟨k, v⟩ := item
    rw [List.filter_cons, Dict.getItem]
    by_cases hkeep : p k = true
    · rw [if_pos hkeep, Dict.getItem, ih]
      by_cases hk : k = key
      · rw [if_pos hk, if_pos hk, if_pos (hk ▸ hkeep)]
      · rw [if_neg hk, if_neg hk]
    · rw [if_neg hkeep, ih]
      by_cases hk : k = key
      · rw [if_pos hk, if_neg (hk ▸ hkeep), if_neg (hk ▸ hkeep)]
      · rw [if_neg hk]

theorem getItem_drop (fields : Fields) (key : String) (other : Codes) :
    Dict.getItem (fields.drop key) other = if other ≠ codes key then Dict.getItem fields other else none := by
  rw [Fields.drop, getItem_filter fields (fun k => decide (k ≠ codes key)) other]
  simp

theorem Schema.AllowsAll.drop (h : s.AllowsAll py fields) (key : String) : s.AllowsAll py (fields.drop key) := by
  intro other v hv
  rw [getItem_drop] at hv
  split_ifs at hv
  exact h other v hv

theorem Schema.Allows.text {text : Codes} (h : Plain text) (key : Codes) : s.Allows py key (.str text) :=
  Or.inl ⟨text, rfl, h.clean⟩

theorem Schema.Allows.flag (flag : Bool) (h : ∃ p ∈ s.properties, p.name = key ∧ p.converter = .bool) :
    s.Allows py (codes key) (.bool flag) := by
  obtain ⟨p, hp, hname, hconverter⟩ := h
  exact Or.inr ⟨p, hp, congrArg codes hname, .flag flag hconverter, by simp⟩

theorem reads_of_length {n : Int} (h : (decimal n.natAbs).length ≤ 640) : py.Reads n := fun limit hlimit =>
  h.trans (py.threshold limit hlimit)

theorem Schema.Allows.number {n : Int} (hn : (decimal n.natAbs).length ≤ 640)
    (h : ∃ p ∈ s.properties, p.name = key ∧ p.converter = .int) : s.Allows py (codes key) (.int n) := by
  obtain ⟨p, hp, hname, hconverter⟩ := h
  exact Or.inr ⟨p, hp, congrArg codes hname, .number n hconverter (reads_of_length hn), by simp⟩

/-- A key of older versions, which is no property, has a text. -/
theorem Schema.AllowsAll.renamed (h : s.AllowsAll py fields) (holder : ∀ p ∈ s.properties, p.name ≠ older)
    (hvalue : s.Allows py (codes key) value) : s.AllowsAll py (fields.renamed key older value) := by
  unfold Fields.renamed
  split_ifs
  · exact h.drop older
  · split
    · exact (h.drop older).put hvalue
    · exact (h.drop older).put hvalue
    · next found hfound =>
      refine (h.drop older).put ?_
      rcases h _ _ hfound with htext | ⟨p, hp, hname, -⟩
      · exact Or.inl htext
      · exact absurd (codes_injective hname) (holder p hp)

theorem map_ok {α β ε : Type} {x : Except ε α} {f : α → β} {b : β} (h : x.map f = .ok b) : ∃ a, x = .ok a ∧ b = f a := by
  cases x with
  | error e => cases h
  | ok a =>
    cases h
    exact ⟨a, rfl, rfl⟩

theorem Schema.AllowsAll.logLevel {result : Fields} (h : general.AllowsAll py fields) (hresult : fields.logLevel py = .ok result) :
    general.AllowsAll py result := by
  unfold Fields.logLevel at hresult
  split_ifs at hresult
  · cases hresult
    exact h.drop "debug"
  · split at hresult
    · obtain ⟨level, hlevel, rfl⟩ := map_ok hresult
      obtain ⟨on, -, rfl⟩ := map_ok hlevel
      refine (h.drop "debug").put ?_
      split_ifs
      · exact Schema.Allows.text (by decide) _
      · exact Schema.Allows.text (by decide) _
    · cases hresult
      exact h.put (Schema.Allows.text (by decide) _)

theorem general_allows {result : Fields} (h : general.AllowsAll py fields) (hresult : generalFields py fields = .ok result) :
    general.AllowsAll py result := by
  obtain ⟨levelled, hlevel, rfl⟩ := map_ok hresult
  have hlevelled : general.AllowsAll py levelled := by
    refine Schema.AllowsAll.logLevel ?_ hlevel
    refine .default ?_ (.flag false (by decide))
    refine .default (.default (.default (.default (h.drop _) ?_) ?_) ?_) ?_ <;> exact .text (by decide) _
  refine .default ?_ (.flag true (by decide))
  refine .default ?_ (.flag false (by decide))
  refine .default ?_ (.number (by decide) (by decide))
  refine .default ?_ (.number (by decide) (by decide))
  refine .default ?_ (.flag false (by decide))
  refine .renamed ?_ (by decide) (.text (by decide) _)
  refine .renamed ?_ (by decide) (.number (by decide) (by decide))
  refine .default ?_ (.number (by decide) (by decide))
  exact .default hlevelled (.flag false (by decide))

theorem lftp_allows (h : lftp.AllowsAll py fields) : lftp.AllowsAll py (lftpFields py fields) := by
  have hbackend : ∀ v, lftp.Allows py (codes "transfer_backend") (normalizeTransferBackend py v) := by
    intro v
    rcases normalizeTransferBackend_cases v with h | h <;> rw [h] <;> exact .text (by decide) _
  have hput : ∀ {full : Fields}, lftp.AllowsAll py full →
      lftp.AllowsAll py (full.put "transfer_backend"
        (normalizeTransferBackend py ((Dict.getItem full (codes "transfer_backend")).getD .none))) :=
    fun hfull => hfull.put (hbackend _)
  have hsftp : lftp.Allows py (codes "protocol") sftp := .text (by decide) _
  unfold lftpFields
  dsimp only
  have hfull : lftp.AllowsAll py (Fields.default (Fields.default (Fields.default (Fields.default (Fields.default
      (Fields.default (Fields.default (Fields.default (fields.default "transfer_backend" (.str (codes "lftp")))
      "rate_limit" (.str (codes "0"))) "remote_python_path" (.str (codes "python3"))) "net_socket_buffer" (.str (codes "8M")))
      "staging_path" (.str [])) "protocol" sftp) "remote_ftp_port" (.int 21)) "ftp_ssl_verify_certificate" (.bool true))
      "use_legacy_lftp_password_argv" (.bool false)) := by
    refine .default (.default (.default ?_ (.number (by decide) (by decide))) (.flag true (by decide))) (.flag false (by decide))
    refine .default (.default (.default (.default (.default (.default h ?_) ?_) ?_) ?_) ?_) ?_ <;> exact .text (by decide) _
  split_ifs
  · exact (hput hfull).put hsftp
  · exact hput hfull

theorem logging_allows (h : logging.AllowsAll py fields) : logging.AllowsAll py (loggingFields fields) := by
  have hstandard : logging.Allows py (codes "log_format") (.str (codes "standard")) := .text (by decide) _
  unfold loggingFields
  split
  · exact h.put hstandard
  · split_ifs
    · exact h.put hstandard
    · exact h
  · exact h

theorem notifications_allows (h : ∀ item ∈ fields, notifications.Allows py item.1 item.2) :
    notifications.AllowsAll py (notificationsFields fields) := by
  have hinitial : notifications.AllowsAll py (Inner.asDict notifications.initial) := by
    have hdefault : ∀ p ∈ notifications.properties,
        (∃ text, p.initial = .str text ∧ Plain text) ∨ ∃ flag, p.initial = .bool flag ∧ p.converter = .bool := by
      intro p hp
      have hchecked : ∀ p ∈ notifications.properties, (match p.initial with
          | .str text => decide (Plain text)
          | .bool _ => decide (p.converter = .bool)
          | _ => false) = true := by decide
      have hfit := hchecked p hp
      cases hinit : p.initial with
      | str text =>
        rw [hinit] at hfit
        exact Or.inl ⟨text, rfl, of_decide_eq_true hfit⟩
      | bool flag =>
        rw [hinit] at hfit
        exact Or.inr ⟨flag, rfl, of_decide_eq_true hfit⟩
      | none | int =>
        rw [hinit] at hfit
        cases hfit
    intro key value hvalue
    obtain ⟨item, hitem, heq⟩ := List.mem_map.mp (Dict.mem_of_getItem hvalue)
    obtain ⟨p, hp, rfl⟩ := List.mem_map.mp hitem
    obtain ⟨rfl, rfl⟩ := Prod.mk.inj heq
    rcases hdefault p hp with ⟨text, hinit, hplain⟩ | ⟨flag, hinit, hconverter⟩
    · rw [hinit]
      exact .text hplain _
    · rw [hinit]
      exact Or.inr ⟨p, hp, rfl, .flag flag hconverter, by simp⟩
  unfold notificationsFields
  generalize Inner.asDict notifications.initial = merged at hinitial
  induction fields generalizing merged with
  | nil => exact hinitial
  | cons item fields ih =>
    rw [List.foldl_cons]
    refine ih (fun i hi => h i (List.mem_cons_of_mem _ hi)) _ ?_
    intro key value hvalue
    rw [Dict.getItem_setItem] at hvalue
    split_ifs at hvalue with hkey
    · cases hvalue
      exact hkey ▸ h item List.mem_cons_self
    · exact hinitial key value hvalue

/-! ## A section -/

/-- A value that the property stores, of a text with a property. -/
def Property.StoresText (py : Strings) (Q : Codes → Prop) (cls : String) (p : Property) (value : Value) : Prop :=
  p.Stores py cls value ∧ Q value.text

theorem Property.stores_text {Q : Codes → Prop} (hQ : Textual Q) {p : Property} {given : Value} (hsensible : p.sensible = true)
    (htakes : p.Takes py given) (hgiven : ∀ text, given = .str text → Q text) {cls : String}
    (h : p.accept py cls given = .ok value) : p.StoresText py Q cls value := by
  refine ⟨⟨given, htakes, h⟩, ?_⟩
  cases htakes with
  | text text => exact Property.accept_text hQ hsensible (hgiven text rfl) h
  | flag flag hconverter =>
    obtain ⟨native, hnative, hcheck⟩ := bind_ok h
    cases hnative
    rw [Property.sensible, hconverter] at hsensible
    have hguard : p.checker.isGuard = true := by
      rcases of_decide_eq_true hsensible with h | h <;> rw [h] <;> rfl
    rw [Checker.guard_eq hguard hcheck]
    exact hQ.plain _ (plain_bool flag)
  | number n hconverter =>
    obtain ⟨native, hnative, hcheck⟩ := bind_ok h
    cases hnative
    rw [Property.sensible, hconverter] at hsensible
    rw [Checker.guard_eq (Checker.isNumber_guard hsensible) hcheck]
    exact hQ.plain _ (plain_decimalInt n)

theorem accept_sftp (hs : s ∈ schemas) {p : Property} (hp : p ∈ s.properties) (hconstrained : s.constrained = true)
    (hname : p.name = "protocol") : p.accept py s.cls sftp = .ok sftp := by
  have hchecker : ∀ s ∈ schemas, ∀ p ∈ s.properties, s.constrained = true → p.name = "protocol" →
      p.checker = .transferProtocol ∧ p.converter = .transferProtocol := by decide
  obtain ⟨hcheck, hconvert⟩ := hchecker s hs p hp hconstrained hname
  have hnative : p.native py s.cls sftp = .ok sftp := by
    change p.converter.convert py s.cls p.name (codes "sftp") = _
    rw [hconvert]
    exact check_sftp s.cls p.name
  rw [Property.accept, hnative, hcheck]
  exact check_sftp s.cls p.name

/-- What `from_dict` makes of a dict of texts that survive the file and of defaults. -/
theorem Schema.fromDict_loaded {inner : Inner} (hs : s ∈ schemas) (hfields : s.AllowsAll py fields)
    (h : s.fromDict py fields = .ok inner) : s.Has (Property.StoresText py Clean s.cls) inner ∧ s.Constrained inner := by
  have hwell := schemas_wellFormed s hs
  refine Schema.fromDict_has hwell (schemas_protocol s hs) ?_ ?_ ?_ h
  · intro p hp given stored hgiven hstored
    have hallows := hfields _ _ hgiven
    have htakes : p.Takes py given ∧ ∀ text, given = .str text → Clean text := by
      rcases hallows with ⟨text, rfl, hclean⟩ | ⟨q, hq, hname, htakes, hother⟩
      · exact ⟨.text text, fun t ht => by cases ht; exact hclean⟩
      · have hsame : q = p := List.inj_on_of_nodup_map hwell.nodup hq hp (codes_injective hname)
        exact ⟨hsame ▸ htakes, fun t ht => absurd ht (hother t)⟩
    rcases hstored with hstored | ⟨rfl, -⟩
    · exact Property.stores_text clean_textual (hwell.sensible p hp) htakes.1 htakes.2 hstored
    · cases htakes.1
  · intro p hp hconstrained hname
    exact Property.stores_text clean_textual (hwell.sensible p hp) (.text _) (fun t ht => by cases ht; exact Plain.clean (by decide))
      (accept_sftp hs hp hconstrained hname)
  · exact fun hconstrained hbackend => absurd hbackend (schemas_initial s hs hconstrained).1

/-! ## The file -/

/-- A dict of texts that survive the file. -/
def CleanFields (fields : Fields) : Prop := ∀ item ∈ fields, ∃ text, item.2 = .str text ∧ Clean text

theorem CleanFields.allows (h : CleanFields fields) (s : Schema) : s.AllowsAll py fields := by
  intro key value hvalue
  obtain ⟨text, htext, hclean⟩ := h _ (Dict.mem_of_getItem hvalue)
  exact Or.inl ⟨text, htext, hclean⟩

theorem CleanFields.drop (h : CleanFields fields) (key : String) : CleanFields (fields.drop key) := fun item hitem =>
  h item (List.mem_of_mem_filter hitem)

theorem CleanFields.legacySecret {fields secret : Fields} (h : CleanFields fields) (hsecret : CleanFields secret) :
    CleanFields (legacySecret ((Dict.getItem secret (codes "webhook_secret")).getD (.str [])) fields) := by
  unfold Settings.legacySecret
  split_ifs
  · intro item hitem
    rcases Ini.mem_setItem hitem with rfl | hitem
    · cases hfound : Dict.getItem secret (codes "webhook_secret") with
      | none => exact ⟨[], rfl, Plain.clean (by decide)⟩
      | some value => exact hsecret (codes "webhook_secret", value) (Dict.mem_of_getItem hfound)
    · exact h item hitem
  · exact h

def CleanDict (dict : List (Codes × Fields)) : Prop := ∀ entry ∈ dict, CleanFields entry.2

theorem CleanDict.checkSection {dict : List (Codes × Fields)} (h : CleanDict dict) {name : String} {fields : Fields}
    (hfields : checkSection dict name = .ok fields) : CleanFields fields := by
  unfold Settings.checkSection at hfields
  split at hfields
  · next found hfound =>
    cases hfields
    exact h _ (Dict.mem_of_getItem hfound)
  · cases hfields

theorem CleanDict.optionalSection {dict : List (Codes × Fields)} (h : CleanDict dict) (name : String) :
    CleanFields (optionalSection dict name) := by
  unfold Settings.optionalSection
  cases hfound : Dict.getItem dict (codes name) with
  | none => intro item hitem; cases hitem
  | some fields => exact h _ (Dict.mem_of_getItem hfound)

/-- What a configuration holds that was made of texts with a property. -/
def Config.LoadedText (py : Strings) (Q : Codes → Prop) (c : Config) : Prop :=
  ∀ part ∈ c.parts, part.1.Has (Property.StoresText py Q part.1.cls) part.2 ∧ part.1.Constrained part.2

theorem fromDict_loaded {dict : List (Codes × Fields)} {c : Config} (hdict : CleanDict dict) (h : fromDict py dict = .ok c) :
    c.LoadedText py Clean := by
  obtain ⟨fields, hfields, h⟩ := bind_ok h
  obtain ⟨generalDict, hgeneralDict, h⟩ := bind_ok h
  obtain ⟨generalInner, hgeneral, h⟩ := bind_ok h
  obtain ⟨lftpDict, hlftpDict, h⟩ := bind_ok h
  obtain ⟨lftpInner, hlftp, h⟩ := bind_ok h
  obtain ⟨validateInner, hvalidate, h⟩ := bind_ok h
  obtain ⟨controllerDict, hcontrollerDict, h⟩ := bind_ok h
  obtain ⟨controllerInner, hcontroller, h⟩ := bind_ok h
  obtain ⟨webDict, hwebDict, h⟩ := bind_ok h
  obtain ⟨webInner, hweb, h⟩ := bind_ok h
  obtain ⟨autoqueueDict, hautoqueueDict, h⟩ := bind_ok h
  obtain ⟨autoqueueInner, hautoqueue, h⟩ := bind_ok h
  obtain ⟨loggingInner, hlogging, h⟩ := bind_ok h
  obtain ⟨notificationsInner, hnotifications, h⟩ := bind_ok h
  have hflag : ∀ {s : Schema} {key : String} {flag : Bool} {fields : Fields}, CleanFields fields →
      (∃ p ∈ s.properties, p.name = key ∧ p.converter = .bool) → s.AllowsAll py (fields.default key (.bool flag)) :=
    fun hclean hkey => (hclean.allows _).default (.flag _ hkey)
  have hg := hdict.checkSection hfields
  have hsecret := (hdict.optionalSection "Notifications").legacySecret hg
  split at h
  · cases h
    intro part hpart
    simp only [Config.parts, List.mem_cons, List.not_mem_nil, or_false] at hpart
    rcases hpart with rfl | rfl | rfl | rfl | rfl | rfl | rfl | rfl <;> dsimp only
    · exact Schema.fromDict_loaded (by decide) (general_allows ((hg.drop _).allows _) hgeneralDict) hgeneral
    · exact Schema.fromDict_loaded (by decide) (lftp_allows ((hdict.checkSection hlftpDict).allows _)) hlftp
    · exact Schema.fromDict_loaded (by decide) (hflag (hdict.optionalSection _) (by decide)) hvalidate
    · exact Schema.fromDict_loaded (by decide) (hflag (hdict.checkSection hcontrollerDict) (by decide)) hcontroller
    · exact Schema.fromDict_loaded (by decide) ((hdict.checkSection hwebDict).allows _) hweb
    · exact Schema.fromDict_loaded (by decide) (hflag (hdict.checkSection hautoqueueDict) (by decide)) hautoqueue
    · exact Schema.fromDict_loaded (by decide) (logging_allows ((hdict.optionalSection _).allows _)) hlogging
    · refine Schema.fromDict_loaded (by decide) (notifications_allows fun item hitem => ?_) hnotifications
      obtain ⟨text, htext, hclean⟩ := hsecret item hitem
      exact Or.inl ⟨text, htext, hclean⟩
  · cases h

/-- Every value of a configuration that was read was accepted, and survives the file. -/
theorem fromStr_loaded {content : Codes} {c : Config} (hreturn : 13 ∉ content) (h : fromStr py content = .ok c) :
    c.LoadedText py Clean := by
  unfold fromStr at h
  split at h
  · next p hread =>
    obtain ⟨hdefaults, hsections⟩ := Ini.read_stable hread
    have hclean : ∀ {value : Codes}, Ini.Stable content value → Clean value := fun hstable =>
      ⟨hstable.1, fun hmem => (hstable.2 13 hmem).elim hreturn (by decide)⟩
    have hdict : CleanDict (parsedDict p) := by
      intro entry hentry item hitem
      obtain ⟨source, hsource, rfl⟩ := List.mem_map.mp hentry
      obtain ⟨option, hoption, rfl⟩ := List.mem_map.mp hitem
      refine ⟨option.2, rfl, hclean ?_⟩
      rcases List.mem_append.mp hoption with hoption | hoption
      · exact hsections source hsource option hoption
      · exact hdefaults option (List.mem_of_mem_filter hoption)
    cases hresult : fromDict py (parsedDict p) with
    | error e =>
      rw [hresult] at h
      cases h
    | ok loaded =>
      rw [hresult] at h
      cases h
      exact fromDict_loaded hdict hresult
  · cases h
  · cases h
  · cases h

end

end SeedSync.Settings
