import CloneDetection.Proofs.Settings.Entries
import CloneDetection.Settings.Document

/-!
# Settings from documents

Whatever a document holds at the place of the settings, it gives a layer within the bounds of the
fields or is told what is wrong with it, with two exceptions: a `tool` that is no table, and an
integer past the doubles under a key whose field needs one.
-/
namespace CloneDetection

theorem SettingsError.message?_eq_none {e : SettingsError} (h : e.message? = none) :
    ∃ key n, e = .refused key (.pastDoubles n) := by
  cases e with
  | unknownKey | notTable => cases h
  | refused key r =>
    cases r with
    | pastDoubles n => exact ⟨key, n, rfl⟩
    | _ => cases h

namespace Layer

/-- A layer of fields with values within their bounds. -/
def IsConfigured (result : Except DocumentError Layer) : Prop :=
  ∃ layer, result = .ok layer ∧ ∀ d ∈ layer, ∃ field : Field, d.1 = field.name ∧ field.Holds d.2

/-- A failure that is told with a message about the settings. -/
def IsReported (result : Except DocumentError Layer) : Prop :=
  ∃ error message, result = .error (.settings error) ∧ error.message? = some message

/-- A document with a `tool` that is no table. -/
def ToolNotTable (entries : List (Text × Value)) : Prop :=
  ∃ v, entries.lookup "tool".toList = some v ∧ ∀ tools, v ≠ .table tools

/-- The table of the settings in a document. -/
def SettingsAt (entries settings : List (Text × Value)) : Prop :=
  ∃ tools, entries.lookup "tool".toList = some (.table tools) ∧
    tools.lookup "clonewatch".toList = some (.table settings)

/-- A document whose reading fails without a message about the settings. -/
def Escapes (entries : List (Text × Value)) : Prop :=
  ToolNotTable entries ∨ ∃ settings, SettingsAt entries settings ∧ StopsAtOverflow settings

inductive Ends (entries : List (Text × Value)) : Except DocumentError Layer → Prop
  | configured (layer : Layer) :
    ¬ Escapes entries → (∀ d ∈ layer, ∃ field : Field, d.1 = field.name ∧ field.Holds d.2) →
    Ends entries (.ok layer)
  | reported (error : SettingsError) (message : Text) :
    ¬ Escapes entries → error.message? = some message → Ends entries (.error (.settings error))
  | toolNotTable : ToolNotTable entries → Ends entries (.error .toolNotTable)
  | overflow (settings : List (Text × Value)) (key : Text) (n : Int) :
    SettingsAt entries settings → StopsAtOverflow settings →
      Ends entries (.error (.settings (.refused key (.pastDoubles n))))

section Document

variable {entries settings tools : List (Text × Value)} {v : Value}

theorem not_escapes_of_none (htool : entries.lookup "tool".toList = none) : ¬ Escapes entries := by
  rintro (⟨v, h, -⟩ | ⟨settings, ⟨tools, h, -⟩, -⟩) <;>
    · rw [htool] at h
      cases h

theorem not_escapes (htool : entries.lookup "tool".toList = some (.table tools))
    (hsettings : ∀ settings, tools.lookup "clonewatch".toList = some (.table settings) →
      ¬ StopsAtOverflow settings) :
    ¬ Escapes entries := by
  rintro (⟨v, h, hnot⟩ | ⟨settings, ⟨tools', h, h'⟩, hstops⟩)
  · rw [htool] at h
    exact hnot tools (Option.some.inj h).symm
  · rw [htool] at h
    cases h
    exact hsettings settings h' hstops

theorem ofSettings_ends (htool : entries.lookup "tool".toList = some (.table tools))
    (hsettings : tools.lookup "clonewatch".toList = some (.table settings)) :
    Ends entries ((ofEntries settings).mapError .settings) := by
  have hescapes : ¬ StopsAtOverflow settings → ¬ Escapes entries := fun hstops =>
    not_escapes htool fun settings' h => by
      rw [hsettings] at h
      cases h
      exact hstops
  rw [← ofEntries_silent_iff] at hescapes
  cases hlayer : ofEntries settings with
  | ok layer =>
    refine .configured layer (hescapes ?_) (holds_of_ofEntries_eq_ok hlayer)
    rintro ⟨error, h, -⟩
    rw [hlayer] at h
    cases h
  | error error =>
    cases hmessage : error.message? with
    | none =>
      obtain ⟨key, n, rfl⟩ := SettingsError.message?_eq_none hmessage
      exact .overflow settings key n ⟨tools, htool, hsettings⟩
        (ofEntries_silent_iff.1 ⟨_, hlayer, hmessage⟩)
    | some message =>
      refine .reported error message (hescapes ?_) hmessage
      rintro ⟨error', h, hnone⟩
      rw [hlayer] at h
      cases h
      rw [hmessage] at hnone
      cases hnone

theorem ofDocument_ends (entries : List (Text × Value)) : Ends entries (ofDocument entries) := by
  unfold ofDocument
  split
  · next htool => exact .configured [] (not_escapes_of_none htool) nofun
  · next tools htool =>
    split
    · next hnone =>
      refine .configured [] (not_escapes htool fun settings h => ?_) nofun
      rw [hnone] at h
      cases h
    · next settings hsettings => exact ofSettings_ends htool hsettings
    · next v hnot hv =>
      refine .reported .notTable _ (not_escapes htool fun settings h => ?_) rfl
      rw [hv] at h
      exact absurd (Option.some.inj h) (hnot settings)
  · next v hnot htool => exact .toolNotTable ⟨v, htool, hnot⟩

variable {result : Except DocumentError Layer}

theorem Ends.configured_or_reported_iff (h : Ends entries result) :
    IsConfigured result ∨ IsReported result ↔ ¬ Escapes entries := by
  cases h with
  | configured layer hescapes hlayer => exact iff_of_true (.inl ⟨layer, rfl, hlayer⟩) hescapes
  | reported error message hescapes hmessage =>
    exact iff_of_true (.inr ⟨error, message, rfl, hmessage⟩) hescapes
  | toolNotTable htool =>
    refine iff_of_false ?_ (not_not_intro (.inl htool))
    rintro (⟨layer, h, -⟩ | ⟨error, message, h, -⟩) <;> cases h
  | overflow settings key n hat hstops =>
    refine iff_of_false ?_ (not_not_intro (.inr ⟨settings, hat, hstops⟩))
    rintro (⟨layer, h, -⟩ | ⟨error, message, h, hmessage⟩) <;> cases h
    cases hmessage

theorem not_settingsAt_of_toolNotTable (h : ToolNotTable entries) (settings : List (Text × Value)) :
    ¬ SettingsAt entries settings := by
  rintro ⟨tools, htools, -⟩
  obtain ⟨v, hv, hnot⟩ := h
  rw [htools] at hv
  exact hnot tools (Option.some.inj hv).symm

theorem Ends.eq_of_toolNotTable (h : Ends entries result) (htool : ToolNotTable entries) :
    result = .error .toolNotTable := by
  cases h with
  | configured _ hescapes | reported _ _ hescapes => exact absurd (.inl htool) hescapes
  | toolNotTable => rfl
  | overflow settings key n hat => exact absurd hat (not_settingsAt_of_toolNotTable htool settings)

theorem Ends.eq_of_overflow (h : Ends entries result) (hat : SettingsAt entries settings)
    (hstops : StopsAtOverflow settings) :
    ∃ key n, result = .error (.settings (.refused key (.pastDoubles n))) := by
  cases h with
  | configured _ hescapes | reported _ _ hescapes =>
    exact absurd (.inr ⟨settings, hat, hstops⟩) hescapes
  | toolNotTable htool => exact absurd hat (not_settingsAt_of_toolNotTable htool settings)
  | overflow _ key n => exact ⟨key, n, rfl⟩

theorem ofFile_eq_ofDocument {content : Bytes} {t : Text} (htext : Utf8.decode? content = some t)
    (hread : Toml.read t = .ok entries) : ofFile (some content) = ofDocument entries := by
  rw [ofFile, ofBytes, htext]
  dsimp only
  rw [hread]

end Document

/-- A document that is read gives settings or is told of, unless its `tool` is no table or its
settings have an integer past the doubles where a double is needed; and these two failures have no
message. -/
theorem ofDocument_reports (entries : List (Text × Value)) :
    (IsConfigured (ofDocument entries) ∨ IsReported (ofDocument entries) ↔
      ¬ ToolNotTable entries ∧ ∀ settings, SettingsAt entries settings →
      ¬ StopsAtOverflow settings) ∧
    (ToolNotTable entries → ofDocument entries = .error .toolNotTable) ∧
    (∀ settings, SettingsAt entries settings → StopsAtOverflow settings →
      ∃ key n, ofDocument entries = .error (.settings (.refused key (.pastDoubles n)))) ∧
    (∀ content t, Utf8.decode? content = some t → Toml.read t = .ok entries →
      ofFile (some content) = ofDocument entries) := by
  have hends := ofDocument_ends entries
  refine ⟨?_, hends.eq_of_toolNotTable, fun settings => hends.eq_of_overflow,
    fun content t => ofFile_eq_ofDocument⟩
  rw [hends.configured_or_reported_iff, Escapes, not_or, not_exists]
  exact and_congr_right' (forall_congr' fun settings => not_and)

theorem ofDocument_reports_workers :
    IsConfigured (ofDocument [("tool".toList,
        .table [("clonewatch".toList, .table [("workers".toList, .integer 0)])])]) ∨
      IsReported (ofDocument [("tool".toList,
        .table [("clonewatch".toList, .table [("workers".toList, .integer 0)])])]) := by
  refine (ofDocument_reports _).1.2 ⟨?_, ?_⟩
  · rintro ⟨v, hv, hnot⟩
    exact hnot _ (Option.some.inj hv).symm
  · rintro settings ⟨tools, htools, hsettings⟩ ⟨before, e, after, hsplit, -, field, hkey, hfield, -⟩
    cases htools
    cases hsettings
    have he : e ∈ [("workers".toList, Value.integer 0)] :=
      hsplit ▸ List.mem_append_right _ List.mem_cons_self
    rw [List.mem_singleton.1 he] at hkey
    rcases hfield with rfl | rfl <;> exact absurd hkey (by decide)

/-- A document whose `tool` is a number, and one with an integer past the doubles. -/
theorem ofDocument_escapes :
    ofFile (some (Utf8.encode "tool = 3\n".toList)) = .error .toolNotTable ∧
      ∃ key n, ofDocument [("tool".toList, .table [("clonewatch".toList, .table
        [("min-confidence".toList, .integer (Nat.pow 16 256))])])] =
          .error (.settings (.refused key (.pastDoubles n))) := by
  constructor
  · have htest : (match ofFile (some (Utf8.encode "tool = 3\n".toList)) with
        | .error .toolNotTable => true
        | _ => false) = true := by
      decide +kernel
    split at htest
    · next h => exact h
    · cases htest
  · have hnone : Double.ofInt? (Nat.pow 16 256) = none := by
      decide +kernel
    have hover : Overflowing ("min-confidence".toList, .integer (Nat.pow 16 256)) :=
      ⟨.minConfidence, rfl, .inl rfl, _, rfl, hnone⟩
    exact (ofDocument_ends _).eq_of_overflow ⟨_, rfl, rfl⟩ ⟨[], _, [], rfl, nofun, hover⟩

end Layer

end CloneDetection
