import Remap.Block.Settings
import Remap.Proofs.Text.Numeral

/-!
# Which settings are accepted

Each variable is left out or holds a numeral of a positive number of 32 bits. All else is refused,
with the name of the first variable at fault, and with a message of its own for a numeral of zero.
-/

namespace Remap.Block.Settings

open Text

/-- A variable that is not set, or one that is set to a numeral of a positive number of 32 bits. -/
def Accepted : Option String → Prop
  | none => True
  | some text => ∃ number, Denotes text.toList number ∧ 1 ≤ number ∧ number ≤ 2 ^ 32 - 1

def Sets (value : Option String) (default setting : UInt32) : Prop :=
  match value with
  | none => setting = default
  | some text => Denotes text.toList setting.toNat

/-- The first variable that is not accepted, and what it holds. -/
def FirstRefused (lookup : String → Option String) (name text : String) : Prop :=
  lookup name = some text ∧ ¬Accepted (some text) ∧
    (name = "NVMAP_BTT_NFREE" ∨
      name = "NVMAP_BTT_LBA_SIZE" ∧ Accepted (lookup "NVMAP_BTT_NFREE"))

structure Refuses (name text : String) (cause : SettingsError) : Prop where
  name_eq : cause.name = name
  message_eq : cause.message = "invalid value for " ++ name ++ ": " ++ cause.detail
  zero_iff : cause.detail = "must be greater than zero" ↔ Denotes text.toList 0
  otherwise : ¬Denotes text.toList 0 →
    cause.detail = "'" ++ text ++ "' is not a positive integer"

def readWord (name value : String) : Except SettingsError UInt32 :=
  match readWord? (trim value.toList) with
  | none => .error (.malformed name value)
  | some word => if word = 0 then .error (.zero name) else .ok word

variable {lookup : String → Option String} {name text : String} {default word : UInt32}

theorem readWord_eq (name value : String) : readWord name value = readValue name value := by
  rw [readWord, readValue, readWord?_eq]
  cases number? (trim value.toList) with
  | none => rfl
  | some number =>
      by_cases small : number < UInt32.size
      · have zero_iff : UInt32.ofNat number = 0 ↔ number = 0 := by
          rw [← UInt32.toNat_inj, UInt32.toNat_ofNat_of_lt' small]
          rfl
        simp [word?, small, zero_iff]
      · have positive : number ≠ 0 := by
          rintro rfl
          exact small (by decide)
        simp [word?, small, positive]

theorem refuses_zero (zero : Denotes text.toList 0) : Refuses name text (.zero name) where
  name_eq := rfl
  message_eq := rfl
  zero_iff := iff_of_true rfl zero
  otherwise other := absurd zero other

theorem refuses_malformed (other : ¬Denotes text.toList 0) :
    Refuses name text (.malformed name text) where
  name_eq := rfl
  message_eq := rfl
  zero_iff := by
    refine iff_of_false ?_ other
    intro same
    have quoted : "'" ++ text ++ "' is not a positive integer" = "must be greater than zero" := same
    have first := congrArg (fun detail => detail.toList.head?) quoted
    simp at first
  otherwise _ := rfl

theorem readValue_cases (name text : String) :
    (∃ word, readValue name text = .ok word ∧ Accepted (some text) ∧
      Denotes text.toList word.toNat ∧ 1 ≤ word.toNat) ∨
    ∃ cause, readValue name text = .error cause ∧ ¬Accepted (some text) ∧
      Refuses name text cause := by
  rw [readValue]
  cases read : number? (trim text.toList) with
  | none =>
      have nothing : ∀ number, ¬Denotes text.toList number := by
        intro number denotes
        rw [number?_trim_iff.mpr denotes] at read
        cases read
      refine .inr ⟨_, rfl, ?_, refuses_malformed (nothing 0)⟩
      rintro ⟨number, denotes, -⟩
      exact nothing number denotes
  | some number =>
      have denotes : Denotes text.toList number := number?_trim_iff.mp read
      have accepted_iff : Accepted (some text) ↔ 1 ≤ number ∧ number ≤ 2 ^ 32 - 1 := by
        refine ⟨?_, fun range => ⟨number, denotes, range⟩⟩
        rintro ⟨other, also, range⟩
        rwa [denotes.unique also]
      dsimp only
      rw [accepted_iff]
      have size_eq : UInt32.size = 2 ^ 32 := rfl
      by_cases zero : number = 0
      · rw [if_pos zero]
        exact .inr ⟨_, rfl, by omega, refuses_zero (zero ▸ denotes)⟩
      · rw [if_neg zero]
        by_cases small : number < UInt32.size
        · have toNat_eq : (UInt32.ofNat number).toNat = number := UInt32.toNat_ofNat_of_lt' small
          rw [if_pos small]
          refine .inl ⟨_, rfl, by omega, ?_, ?_⟩
          · rwa [toNat_eq]
          · omega
        · rw [if_neg small]
          refine .inr ⟨_, rfl, by omega, refuses_malformed ?_⟩
          exact fun also => zero (denotes.unique also)

theorem setting_cases (lookup : String → Option String) (name : String)
    (positive : 1 ≤ default.toNat) :
    (∃ word, setting lookup name default = .ok word ∧ Accepted (lookup name) ∧
      Sets (lookup name) default word ∧ 1 ≤ word.toNat) ∨
    ∃ text cause, setting lookup name default = .error cause ∧ lookup name = some text ∧
      ¬Accepted (some text) ∧ Refuses name text cause := by
  rw [setting]
  cases lookup name with
  | none => exact .inl ⟨default, rfl, trivial, rfl, positive⟩
  | some text =>
      obtain accepted | ⟨cause, refused⟩ := readValue_cases name text
      · exact .inl accepted
      · exact .inr ⟨text, cause, refused.1, rfl, refused.2⟩

theorem ofLookup_cases (lookup : String → Option String) :
    (∃ settings, ofLookup lookup = .ok settings ∧
      (Accepted (lookup "NVMAP_BTT_NFREE") ∧ Accepted (lookup "NVMAP_BTT_LBA_SIZE")) ∧
      Sets (lookup "NVMAP_BTT_NFREE") 256 settings.nfree ∧
      Sets (lookup "NVMAP_BTT_LBA_SIZE") 512 settings.blockSize ∧
      1 ≤ settings.nfree.toNat ∧ 1 ≤ settings.blockSize.toNat) ∨
    ∃ cause name text, ofLookup lookup = .error cause ∧ FirstRefused lookup name text ∧
      Refuses name text cause := by
  rw [ofLookup, nfreeName, blockSizeName]
  obtain ⟨nfree, read, accepted, sets, positive⟩ | ⟨text, cause, read, holds, refused, refuses⟩ :=
    @setting_cases 256 lookup "NVMAP_BTT_NFREE" (by decide)
  · rw [read]
    obtain ⟨size, read, also, setsSize, large⟩ | ⟨text, cause, read, holds, refused, refuses⟩ :=
      @setting_cases 512 lookup "NVMAP_BTT_LBA_SIZE" (by decide)
    · rw [read]
      exact .inl ⟨⟨nfree, size⟩, rfl, ⟨accepted, also⟩, sets, setsSize, positive, large⟩
    · rw [read]
      exact .inr ⟨cause, _, text, rfl, ⟨holds, refused, .inr ⟨rfl, accepted⟩⟩, refuses⟩
  · rw [read]
    exact .inr ⟨cause, _, text, rfl, ⟨holds, refused, .inl rfl⟩, refuses⟩

theorem FirstRefused.not_accepted (first : FirstRefused lookup name text) :
    ¬(Accepted (lookup "NVMAP_BTT_NFREE") ∧ Accepted (lookup "NVMAP_BTT_LBA_SIZE")) := by
  obtain ⟨holds, refused, rfl | ⟨rfl, -⟩⟩ := first
  · exact fun accepted => refused (holds ▸ accepted.1)
  · exact fun accepted => refused (holds ▸ accepted.2)

/-- Settings are made if and only if each variable is not set or is set to a numeral of a positive
number of 32 bits. Then each setting is that number or its default, so it is positive. Otherwise
the first variable that is at fault is named, and the message says that the number must be positive
if and only if the variable holds a numeral of zero. Reading with a word of 32 bits that gives up at
an overflow makes no difference. -/
theorem ofLookup_accepts (lookup : String → Option String) :
    ((∃ settings, ofLookup lookup = .ok settings) ↔
      Accepted (lookup "NVMAP_BTT_NFREE") ∧ Accepted (lookup "NVMAP_BTT_LBA_SIZE")) ∧
    (∀ settings, ofLookup lookup = .ok settings →
      Sets (lookup "NVMAP_BTT_NFREE") 256 settings.nfree ∧
      Sets (lookup "NVMAP_BTT_LBA_SIZE") 512 settings.blockSize ∧
      1 ≤ settings.nfree.toNat ∧ 1 ≤ settings.blockSize.toNat) ∧
    (∀ cause, ofLookup lookup = .error cause →
      ∃ name text, FirstRefused lookup name text ∧ Refuses name text cause) ∧
    ∀ name text, readWord name text = readValue name text := by
  refine ⟨?_, ?_, ?_, readWord_eq⟩
  all_goals obtain ⟨settings, made, accepted, sets⟩ | ⟨cause, name, text, failed, first, refuses⟩ :=
    ofLookup_cases lookup
  · exact iff_of_true ⟨settings, made⟩ accepted
  · refine iff_of_false ?_ first.not_accepted
    rintro ⟨settings, made⟩
    cases failed.symm.trans made
  · intro other also
    cases made.symm.trans also
    exact sets
  · intro settings made
    cases failed.symm.trans made
  · intro cause failed
    cases made.symm.trans failed
  · intro other also
    cases failed.symm.trans also
    exact ⟨name, text, first, refuses⟩

end Remap.Block.Settings
