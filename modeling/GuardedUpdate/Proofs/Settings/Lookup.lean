import GuardedUpdate.Proofs.Decimal.Natural
import GuardedUpdate.Proofs.Text.Blank
import GuardedUpdate.Settings

/-!
# Settings from a look-up

A look-up gives settings unless it has a text for the number of days that denotes no number of
32 bits between white space (`Settings.IsDays`); that text, with its white space, is then in the
fault. `Settings.Accords` says for each setting what it is by what is found under its own name
alone, and the settings of a look-up are the ones that accord with it (`Settings.ofLookup_exact`).
-/

namespace GuardedUpdate.Settings

open Decimal

/-! ## The number of days -/

/-- Between white space, a text denotes a number that 32 bits hold. -/
def IsDays (text : String) (n : Nat) : Prop :=
  (∃ t, Text.Encloses text.toList t ∧ Denotes t n) ∧ n < UInt32.size

/-- There is no white space in what denotes a number. -/
theorem isTrimmed_of_denotes {s : List Char} {n : Nat} (h : Denotes s n) : Text.IsTrimmed s := by
  have hplus : Text.isBlank '+' = false := by decide
  obtain ⟨digits, hs, -, hdigits, -⟩ := h
  have hall : ∀ c ∈ digits, Text.isBlank c = false := by
    intro c hc
    exact Text.isBlank_eq_false_of_isDigit (hdigits c hc)
  apply Text.isTrimmed_of_forall
  rcases hs with rfl | rfl
  · exact hall
  · exact List.forall_mem_cons.2 ⟨hplus, hall⟩

/-- A text is taken for a number of days exactly if it denotes it between white space. -/
theorem days?_eq_some_iff {text : String} {days : UInt32} :
    days? text = some days ↔ Denotes (Text.trim text.toList) days.toNat := by
  rw [days?, Option.map_eq_some_iff]
  simp only [unsignedBelow?_eq_some_iff]
  constructor
  · intro hyp
    obtain ⟨n, ⟨hdenotes, hlt⟩, rfl⟩ := hyp
    rwa [UInt32.toNat_ofNat_of_lt' hlt]
  · intro hdenotes
    exact ⟨days.toNat, ⟨hdenotes, days.toNat_lt⟩, UInt32.ofNat_toNat⟩

theorem days?_eq_some_iff_isDays {text : String} {days : UInt32} :
    days? text = some days ↔ IsDays text days.toNat := by
  rw [days?_eq_some_iff, IsDays, Text.exists_encloses_iff fun t => isTrimmed_of_denotes]
  exact (and_iff_left days.toNat_lt).symm

theorem days?_eq_none_iff {text : String} : days? text = none ↔ ∀ n, ¬IsDays text n := by
  rw [Option.eq_none_iff_forall_ne_some]
  constructor
  · intro h n hn
    have hword : (UInt32.ofNat n).toNat = n := UInt32.toNat_ofNat_of_lt' hn.2
    apply h (UInt32.ofNat n)
    rwa [days?_eq_some_iff_isDays, hword]
  · intro h days hdays
    exact h days.toNat (days?_eq_some_iff_isDays.1 hdays)

/-- The number of days of a look-up: its text denotes it, or it is the default. -/
def HasDays (lookup : String → Option String) (days : UInt32) : Prop :=
  (lookup "TEMPLATE_TTL_DAYS").elim (days = 90) (IsDays · days.toNat)

theorem hasDays_iff {lookup : String → Option String} {days : UInt32} :
    HasDays lookup days ↔ (lookup "TEMPLATE_TTL_DAYS").elim (some 90) days? = some days := by
  unfold HasDays
  cases lookup "TEMPLATE_TTL_DAYS" with
  | none =>
    show days = 90 ↔ some 90 = some days
    rw [Option.some.injEq, eq_comm]
  | some text => exact days?_eq_some_iff_isDays.symm

/-- Look-ups that find the same text have the same number of days. -/
theorem HasDays.unique {lookup lookup' : String → Option String} {days days' : UInt32}
    (h : HasDays lookup days) (h' : HasDays lookup' days')
    (hsame : lookup "TEMPLATE_TTL_DAYS" = lookup' "TEMPLATE_TTL_DAYS") : days = days' := by
  rw [hasDays_iff] at h h'
  rw [hsame, h'] at h
  exact (Option.some.inj h).symm

/-! ## Texts that say yes -/

/-- Between white space, a text says yes. -/
def Affirms (text : String) : Prop :=
  ∃ yes ∈ affirmatives, Text.Encloses text.toList yes.toList

theorem isAffirmative_iff {text : String} : isAffirmative text = true ↔ Affirms text := by
  have htrimmed : ∀ t : List Char, String.ofList t ∈ affirmatives → Text.IsTrimmed t := by
    intro t ht
    have hnone : ∀ yes ∈ affirmatives, yes.toList.any Text.isBlank = false := by decide
    have hany := hnone _ ht
    rw [String.toList_ofList] at hany
    apply Text.isTrimmed_of_forall
    intro c hc
    exact Bool.eq_false_iff.2 (List.any_eq_false.1 hany c hc)
  rw [isAffirmative, decide_eq_true_eq, ← Text.exists_encloses_iff htrimmed]
  constructor
  · intro hyp
    obtain ⟨t, hencloses, ht⟩ := hyp
    refine ⟨_, ht, ?_⟩
    rwa [String.toList_ofList]
  · intro hyp
    obtain ⟨yes, hyes, hencloses⟩ := hyp
    refine ⟨yes.toList, hencloses, ?_⟩
    rwa [String.ofList_toList]

/-! ## Settings that accord with a look-up -/

/-- Each setting is what is found under its name, or else its default. -/
structure Accords (lookup : String → Option String) (s : Settings) : Prop where
  /-- The table of templates is taken as it is found. -/
  templatesTable : s.templatesTable = (lookup "TEMPLATES_TABLE_NAME").getD "templates"
  /-- The table of routing configurations is taken as it is found. -/
  routingConfigTable :
    s.routingConfigTable = (lookup "ROUTING_CONFIG_TABLE_NAME").getD "routing-configs"
  /-- The number of days is the one that its text denotes. -/
  templateDays : HasDays lookup s.templateDays
  /-- The item is asked for if the text says so. -/
  returnOldItem : s.returnOldItem = true ↔
    ∀ text ∈ lookup "RETURN_OLD_ITEM_ON_CONDITION_FAILURE", Affirms text

section Accords

variable {lookup lookup' : String → Option String} {s s' : Settings} {days : UInt32}
  {e : SettingFault}

/-- Where two look-ups find the same, settings that accord with them are the same. -/
theorem Accords.agree (h : Accords lookup s) (h' : Accords lookup' s') :
    (lookup "TEMPLATES_TABLE_NAME" = lookup' "TEMPLATES_TABLE_NAME" →
      s.templatesTable = s'.templatesTable) ∧
    (lookup "ROUTING_CONFIG_TABLE_NAME" = lookup' "ROUTING_CONFIG_TABLE_NAME" →
      s.routingConfigTable = s'.routingConfigTable) ∧
    (lookup "TEMPLATE_TTL_DAYS" = lookup' "TEMPLATE_TTL_DAYS" →
      s.templateDays = s'.templateDays) ∧
    (lookup "RETURN_OLD_ITEM_ON_CONDITION_FAILURE" =
        lookup' "RETURN_OLD_ITEM_ON_CONDITION_FAILURE" →
      s.returnOldItem = s'.returnOldItem) := by
  refine ⟨?_, ?_, ?_, ?_⟩
  · intro hsame
    rw [h.templatesTable, h'.templatesTable, hsame]
  · intro hsame
    rw [h.routingConfigTable, h'.routingConfigTable, hsame]
  · exact h.templateDays.unique h'.templateDays
  · intro hsame
    rw [Bool.eq_iff_iff, h.returnOldItem, h'.returnOldItem, hsame]

/-- Only one choice of settings accords with a look-up. -/
theorem Accords.unique (h : Accords lookup s) (h' : Accords lookup s') : s = s' := by
  obtain ⟨htemplates, hrouting, hdays, hreturn⟩ := h.agree h'
  cases s
  cases s'
  rw [Settings.mk.injEq]
  exact ⟨htemplates rfl, hrouting rfl, hdays rfl, hreturn rfl⟩

/-! ## The settings of a look-up -/

/-- The settings that a look-up gives with a number of days. -/
def withDays (lookup : String → Option String) (days : UInt32) : Settings where
  templatesTable := (lookup "TEMPLATES_TABLE_NAME").getD "templates"
  routingConfigTable := (lookup "ROUTING_CONFIG_TABLE_NAME").getD "routing-configs"
  templateDays := days
  returnOldItem := (lookup "RETURN_OLD_ITEM_ON_CONDITION_FAILURE").elim true isAffirmative

/-- Only the number of days decides whether there are settings. -/
theorem ofLookup_eq (lookup : String → Option String) :
    ofLookup lookup =
      match lookup "TEMPLATE_TTL_DAYS" with
      | none => .ok (withDays lookup 90)
      | some text =>
        match days? text with
        | some days => .ok (withDays lookup days)
        | none => .error ⟨.templateDays, text⟩ := by
  have hname : Vocabulary.name Setting.templateDays = "TEMPLATE_TTL_DAYS" := rfl
  unfold ofLookup
  cases htext : lookup "TEMPLATE_TTL_DAYS" with
  | none =>
    simp only [hname, htext]
    rfl
  | some text =>
    simp only [hname, htext]
    cases days? text <;> rfl

theorem accords_withDays (h : HasDays lookup days) : Accords lookup (withDays lookup days) where
  templatesTable := rfl
  routingConfigTable := rfl
  templateDays := h
  returnOldItem := by
    show (lookup _).elim true isAffirmative = true ↔ _
    cases lookup "RETURN_OLD_ITEM_ON_CONDITION_FAILURE" with
    | none => exact iff_of_true rfl nofun
    | some text => simp [isAffirmative_iff]

theorem ofLookup_of_hasDays (h : HasDays lookup days) :
    ofLookup lookup = .ok (withDays lookup days) := by
  rw [hasDays_iff] at h
  rw [ofLookup_eq]
  cases htext : lookup "TEMPLATE_TTL_DAYS" with
  | none =>
    rw [htext] at h
    rw [show days = 90 from (Option.some.inj h).symm]
  | some text =>
    rw [htext] at h
    have htaken : days? text = some days := h
    simp only [htaken]

theorem ofLookup_of_no_days {text : String} (htext : lookup "TEMPLATE_TTL_DAYS" = some text)
    (h : ∀ n, ¬IsDays text n) : ofLookup lookup = .error ⟨.templateDays, text⟩ := by
  rw [ofLookup_eq]
  simp only [htext, days?_eq_none_iff.2 h]

/-- A look-up has a number of days, or a text that is none. -/
theorem exists_hasDays_or (lookup : String → Option String) :
    (∃ days, HasDays lookup days) ∨
      ∃ text, lookup "TEMPLATE_TTL_DAYS" = some text ∧ ∀ n, ¬IsDays text n := by
  unfold HasDays
  cases htext : lookup "TEMPLATE_TTL_DAYS" with
  | none => exact .inl ⟨90, rfl⟩
  | some text =>
    cases hdays : days? text with
    | none => exact .inr ⟨text, rfl, days?_eq_none_iff.1 hdays⟩
    | some days => exact .inl ⟨days, days?_eq_some_iff_isDays.1 hdays⟩

theorem ofLookup_eq_ok_iff : ofLookup lookup = .ok s ↔ Accords lookup s := by
  constructor
  · intro h
    rcases exists_hasDays_or lookup with ⟨days, hdays⟩ | ⟨text, htext, hnone⟩
    · rw [ofLookup_of_hasDays hdays] at h
      cases h
      exact accords_withDays hdays
    · rw [ofLookup_of_no_days htext hnone] at h
      cases h
  · intro h
    rw [ofLookup_of_hasDays h.templateDays, (accords_withDays h.templateDays).unique h]

theorem ofLookup_eq_error_iff :
    ofLookup lookup = .error e ↔
      ∃ text, lookup "TEMPLATE_TTL_DAYS" = some text ∧ (∀ n, ¬IsDays text n) ∧
        e = ⟨.templateDays, text⟩ := by
  constructor
  · intro h
    rcases exists_hasDays_or lookup with ⟨days, hdays⟩ | ⟨text, htext, hnone⟩
    · rw [ofLookup_of_hasDays hdays] at h
      cases h
    · rw [ofLookup_of_no_days htext hnone] at h
      cases h
      exact ⟨text, htext, hnone, rfl⟩
  · intro hyp
    obtain ⟨text, htext, hnone, rfl⟩ := hyp
    exact ofLookup_of_no_days htext hnone

/-- The settings of a look-up have the number of days that its text is taken for, or else the
default. -/
theorem exists_ofLookup_iff :
    (∃ s, ofLookup lookup = .ok s ∧ s.templateDays = days) ↔
      (lookup (Vocabulary.name Setting.templateDays)).elim (days = 90) (days? · = some days) := by
  simp only [days?_eq_some_iff_isDays]
  constructor
  · intro hyp
    obtain ⟨s, hs, rfl⟩ := hyp
    exact (ofLookup_eq_ok_iff.1 hs).templateDays
  · intro h
    exact ⟨_, ofLookup_of_hasDays h, rfl⟩

end Accords

/-- A look-up gives no settings exactly if it has a text for the number of days that is no such
number, and the fault has this text as it was found. It gives the settings that accord with it, and
no others; so two look-ups that find the same under the name of a setting agree in this setting,
whatever else they find. -/
theorem ofLookup_exact (lookup : String → Option String) :
    (∀ e, ofLookup lookup = .error e ↔
      ∃ text, lookup "TEMPLATE_TTL_DAYS" = some text ∧ (∀ n, ¬IsDays text n) ∧
        e = ⟨.templateDays, text⟩) ∧
    (∀ s, ofLookup lookup = .ok s ↔ Accords lookup s) ∧
    ∀ lookup' s s', ofLookup lookup = .ok s → ofLookup lookup' = .ok s' →
      (lookup "TEMPLATES_TABLE_NAME" = lookup' "TEMPLATES_TABLE_NAME" →
        s.templatesTable = s'.templatesTable) ∧
      (lookup "ROUTING_CONFIG_TABLE_NAME" = lookup' "ROUTING_CONFIG_TABLE_NAME" →
        s.routingConfigTable = s'.routingConfigTable) ∧
      (lookup "RETURN_OLD_ITEM_ON_CONDITION_FAILURE" =
          lookup' "RETURN_OLD_ITEM_ON_CONDITION_FAILURE" →
        s.returnOldItem = s'.returnOldItem) := by
  refine ⟨fun e => ofLookup_eq_error_iff, fun s => ofLookup_eq_ok_iff, ?_⟩
  intro lookup' s s' hs hs'
  obtain ⟨htemplates, hrouting, -, hreturn⟩ :=
    (ofLookup_eq_ok_iff.1 hs).agree (ofLookup_eq_ok_iff.1 hs')
  exact ⟨htemplates, hrouting, hreturn⟩

/-- The largest number of days, behind white space, a sign and zeros. The other settings have nothing
to do with it. -/
theorem ofLookup_exact_at_end :
    let lookup' (name : String) : Option String :=
      if name = "TEMPLATES_TABLE_NAME" then some " t "
      else if name = "RETURN_OLD_ITEM_ON_CONDITION_FAILURE" then some "\tYES" else none
    let lookup (name : String) : Option String :=
      if name = "TEMPLATE_TTL_DAYS" then some "\u3000+004294967295\n" else lookup' name
    ∃ s s', ofLookup lookup = .ok s ∧ ofLookup lookup' = .ok s' ∧ s.templateDays = 4294967295 ∧
      s.templatesTable = s'.templatesTable ∧ s.routingConfigTable = s'.routingConfigTable ∧
      s.returnOldItem = s'.returnOldItem := by
  intro lookup' lookup
  have hs : ofLookup lookup =
      .ok { templatesTable := " t ", templateDays := 4294967295, returnOldItem := true } := by
    decide
  have hs' : ofLookup lookup' = .ok { templatesTable := " t ", returnOldItem := true } := by
    decide
  obtain ⟨htemplates, hrouting, hreturn⟩ := (ofLookup_exact lookup).2.2 lookup' _ _ hs hs'
  exact ⟨_, _, hs, hs', rfl, htemplates rfl, hrouting rfl, hreturn rfl⟩

/-- One more is refused, with its white space. -/
example :
    ofLookup (fun name => if name = "TEMPLATE_TTL_DAYS" then some " 4294967296" else none) =
      .error ⟨.templateDays, " 4294967296"⟩ := by
  decide

end GuardedUpdate.Settings
