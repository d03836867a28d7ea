import QcloudIot.Lib.Brackets
import QcloudIot.Utils.JsonLookup

/-!
# Documents without brackets in strings

The scanner counts brackets also where they stand in strings, and a backslash ends no string for it.
Where there are none of either, it loses its way in no document.

* `Json.balanced`: the brackets of such a text are those of its objects and arrays;
* `skips_of_quiet`: it gets to the end of every value;
* `scannable_of_quiet`: it follows every path.
-/

namespace QcloudIot.Utils

open Lib

/-! ## Texts without brackets -/

/-- Opening and closing brackets. -/
def brackets : List (UInt8 × UInt8) := [(91, 93), (123, 125)]

/-- Neither a bracket nor a backslash. -/
def Quiet (t : Text) : Prop := ∀ x ∈ [91, 93, 123, 125, 92], x ∉ t

instance : DecidablePred Quiet := fun _ => inferInstanceAs (Decidable (∀ _ ∈ _, _))

variable {s t : Text} {o c : UInt8}

theorem Quiet.append (hs : Quiet s) (ht : Quiet t) : Quiet (s ++ t) := by
  intro x hx
  rw [List.mem_append, not_or]
  exact ⟨hs x hx, ht x hx⟩

theorem quiet_of_isNumeric (h : ∀ x ∈ t, isNumeric x = true) : Quiet t := by
  have hbrackets : ∀ x ∈ [91, 93, 123, 125, 92], ¬ isNumeric x = true := by decide
  exact fun x hx hmem => hbrackets x hx (h x hmem)

theorem quiet_space (space : JsonSpace) : Quiet space.bytes := by
  intro x hx hmem
  rcases space.blank x hmem with rfl | rfl | rfl | rfl <;> exact absurd hx (by decide)

theorem quiet_name {n : JsonName} (h : Quiet n.name.bytes) : Quiet n.text := by
  have hquote : Quiet [34] := by decide
  have hcolon : Quiet [58] := by decide
  exact (((quiet_space n.before).append (hquote.append h)).append
    (hquote.append (quiet_space n.between))).append (hcolon.append (quiet_space n.behind))

theorem balanced_of_quiet (h : (o, c) ∈ brackets) (ht : Quiet t) : Balanced o c t := by
  have hmem : ∀ p ∈ brackets, p.1 ∈ [91, 93, 123, 125, 92] ∧ p.2 ∈ [91, 93, 123, 125, 92] := by
    simp [brackets]
  exact balanced_of_notMem (ht o (hmem _ h).1) (ht c (hmem _ h).2)

/-- Brackets of one kind around a text balanced in the other, or in their own. -/
theorem balanced_enclose (h : (o, c) ∈ brackets) {a b : UInt8} (hab : (a, b) ∈ brackets)
    (ht : Balanced o c t) : Balanced o c (a :: (t ++ [b])) := by
  have hother : ∀ p ∈ brackets, ∀ q ∈ brackets, q ≠ p →
      (p.1 ∉ [q.1] ∧ p.2 ∉ [q.1]) ∧ p.1 ∉ [q.2] ∧ p.2 ∉ [q.2] := by simp [brackets]
  by_cases hsame : (a, b) = (o, c)
  · cases hsame
    have hne : ∀ p ∈ brackets, p.1 ≠ p.2 := by simp [brackets]
    exact ht.bracket (hne _ h)
  · obtain ⟨hopen, hclose⟩ := hother _ h _ hab hsame
    exact (balanced_of_notMem hopen.1 hopen.2).append
      (ht.append (balanced_of_notMem hclose.1 hclose.2))

/-! ## Values -/

mutual

/-- **The brackets of a text are those of its objects and arrays**, where no string holds one. -/
theorem Json.balanced (h : (o, c) ∈ brackets) : ∀ {v : Json}, v.Strings Quiet →
    Balanced o c v.text
  | .string s, hs =>
    have hquote : Quiet [34] := by decide
    balanced_of_quiet h ((hquote.append hs).append hquote)
  | .number n, _ => balanced_of_quiet h (quiet_of_isNumeric n.isNumeric_text)
  | .literal l, _ => balanced_of_quiet h (by cases l <;> decide)
  | .emptyArray space, _ => balanced_enclose h (by decide) (balanced_of_quiet h (quiet_space space))
  | .array elements, hs => by
    have helements : elements.Strings Quiet := hs
    obtain ⟨inner, heq, hinner⟩ := JsonElements.balanced h helements
    rw [Json.text, heq]
    exact balanced_enclose h (by decide) hinner
  | .emptyObject space, _ => balanced_enclose h (by decide) (balanced_of_quiet h (quiet_space space))
  | .object members, hs => by
    have hmembers : members.Strings Quiet := hs
    obtain ⟨inner, heq, hinner⟩ := JsonMembers.balanced h hmembers
    rw [Json.text, heq]
    exact balanced_enclose h (by decide) hinner

theorem JsonElements.balanced (h : (o, c) ∈ brackets) : ∀ {elements : JsonElements},
    elements.Strings Quiet → ∃ inner, elements.text = inner ++ [93] ∧ Balanced o c inner
  | .last before v after, hs =>
    ⟨_, rfl, ((balanced_of_quiet h (quiet_space before)).append (Json.balanced h hs)).append
      (balanced_of_quiet h (quiet_space after))⟩
  | .more before v after others, hs => by
    obtain ⟨inner, heq, hinner⟩ := JsonElements.balanced h hs.2
    have hfirst := ((balanced_of_quiet h (quiet_space before)).append (Json.balanced h hs.1)).append
      (balanced_of_quiet h (quiet_space after))
    have hcomma : Balanced o c [44] := balanced_of_quiet h (by decide)
    refine ⟨_, ?_, hfirst.append (hcomma.append hinner)⟩
    rw [JsonElements.text, heq, List.append_assoc (_ ++ _) (_ ++ _)]
    rfl

theorem JsonMembers.balanced (h : (o, c) ∈ brackets) : ∀ {members : JsonMembers},
    members.Strings Quiet → ∃ inner, members.text = inner ++ [125] ∧ Balanced o c inner
  | .last name v after, hs =>
    ⟨_, rfl, ((balanced_of_quiet h (quiet_name hs.1)).append (Json.balanced h hs.2)).append
      (balanced_of_quiet h (quiet_space after))⟩
  | .more name v after others, hs => by
    obtain ⟨inner, heq, hinner⟩ := JsonMembers.balanced h hs.2
    have hfirst := ((balanced_of_quiet h (quiet_name hs.1.1)).append (Json.balanced h hs.1.2)).append
      (balanced_of_quiet h (quiet_space after))
    have hcomma : Balanced o c [44] := balanced_of_quiet h (by decide)
    refine ⟨_, ?_, hfirst.append (hcomma.append hinner)⟩
    rw [JsonMembers.text, heq, List.append_assoc (_ ++ _) (_ ++ _)]
    rfl

end

/-- The scanner gets to its end. -/
theorem skips_of_quiet {v : Json} (h : v.Strings Quiet) : Skips v := by
  cases v with
  | string s => exact fun hlast => h 92 (by decide) (List.mem_of_getLast? hlast)
  | number n => trivial
  | literal l => trivial
  | emptyArray space =>
    exact (balanced_of_quiet (o := 91) (c := 93) (by decide) (quiet_space space)).strict (by decide)
  | array elements =>
    obtain ⟨inner, heq, hinner⟩ := JsonElements.balanced (o := 91) (c := 93) (by decide) h
    change Enclosed 91 93 (91 :: elements.text)
    rw [heq]
    exact hinner.strict (by decide)
  | emptyObject space =>
    exact (balanced_of_quiet (o := 123) (c := 125) (by decide) (quiet_space space)).strict (by decide)
  | object members =>
    obtain ⟨inner, heq, hinner⟩ := JsonMembers.balanced (o := 123) (c := 125) (by decide) h
    change Enclosed 123 125 (123 :: members.text)
    rw [heq]
    exact hinner.strict (by decide)

theorem not_objectLike_of_quiet {v : Json} (h : v.Strings Quiet) : ¬ ObjectLike v := by
  cases v with
  | string s =>
    rintro ⟨spaces, rest, heq, -⟩
    refine h 123 (by decide) ?_
    rw [heq]
    exact List.mem_append_right _ List.mem_cons_self
  | _ => exact id

/-! ## Paths -/

theorem passes_of_quiet (name : Text) : ∀ {ms : Members}, (∀ m ∈ ms, m.2.Strings Quiet) →
    Passes name ms
  | [], _ => trivial
  | m :: ms, h => by
    obtain ⟨hm, hms⟩ := List.forall_mem_cons.mp h
    exact ⟨skips_of_quiet hm, .inr (passes_of_quiet name hms)⟩

/-- **Every path can be followed**, where no string holds a bracket or a backslash. -/
theorem scannable_of_quiet : ∀ (path : List Text) {ms : Members}, (∀ m ∈ ms, m.2.Strings Quiet) →
    Scannable path ms
  | [], _, _ => trivial
  | name :: path, ms, h => by
    refine ⟨passes_of_quiet name h, fun v behind hfound _ => ?_⟩
    obtain ⟨⟨m, hm, rfl⟩, hbehind⟩ := flatFind_mem hfound
    refine ⟨not_objectLike_of_quiet (h m hm), fun _ => scannable_of_quiet path fun m' hm' => ?_⟩
    rcases List.mem_append.mp hm' with hinner | houter
    · exact Json.strings_of_mem (h m hm) hinner
    · exact h m' (hbehind m' houter)

end QcloudIot.Utils
