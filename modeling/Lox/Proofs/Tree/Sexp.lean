import Mathlib.Data.List.Basic
import Mathlib.Data.List.TakeWhile
import Mathlib.Tactic.Common

/-!
Symbolic expressions: words, and groups of such forms between parentheses. Where a form ends can be told from its text,
so that no two forms, and no two sequences of forms, are written alike.
-/
namespace Lox

inductive Sexp where
  | word (text : String)
  | group (parts : List Sexp)

namespace Sexp

/-- The characters that end a word without quotes. -/
def stops : List Char := [' ', '\n', '(', ')', '"']

/-- Words have no such character, or are in quotes and have no quote inside. -/
inductive Word : List Char → Prop
  | plain {first : Char} {rest : List Char} (visible : ∀ char ∈ first :: rest, char ∉ stops) : Word (first :: rest)
  | quoted {body : List Char} (closed : '"' ∉ body) : Word ('"' :: (body ++ ['"']))

mutual

/-- All words of a form are such words. -/
def Legal : Sexp → Prop
  | word text => Word text.toList
  | group parts => LegalAll parts

def LegalAll : List Sexp → Prop
  | [] => True
  | first :: rest => first.Legal ∧ LegalAll rest

end

mutual

def write : Sexp → List Char
  | word text => text.toList
  | group parts => '(' :: (writeAll ' ' parts ++ [')'])

/-- Forms with a character between them. -/
def writeAll (between : Char) : List Sexp → List Char
  | [] => []
  | first :: rest => first.write ++ writeRest between rest

/-- Forms with a character before each of them. -/
def writeRest (between : Char) : List Sexp → List Char
  | [] => []
  | first :: rest => between :: (first.write ++ writeRest between rest)

end

theorem legalAll_iff {forms : List Sexp} : LegalAll forms ↔ ∀ form ∈ forms, form.Legal := by
  induction forms with
  | nil => simp [LegalAll]
  | cons first rest ih => simp [LegalAll, ih]

theorem LegalAll.append {first rest : List Sexp} (legal : LegalAll first) (legal' : LegalAll rest) :
    LegalAll (first ++ rest) := by
  rw [legalAll_iff] at *
  intro form member
  exact (List.mem_append.mp member).elim (legal form) (legal' form)

/-- What can stand behind a form. -/
def Ends (after : List Char) : Prop := ∀ char, after.head? = some char → char ∈ stops

/-- What can stand behind the last of some forms. -/
def Closes (after : List Char) : Prop := ∀ char, after.head? = some char → char = ')'

variable {text other after after' : List Char} {between : Char}

theorem Closes.ends (closes : Closes after) : Ends after := by
  intro char head
  rw [closes char head]
  decide

section Words

theorem takeWhile_word (visible : ∀ char ∈ text, char ∉ stops) (ends : Ends after) :
    (text ++ after).takeWhile (· ∉ stops) = text := by
  have none : after.takeWhile (· ∉ stops) = [] := by
    cases after with
    | nil => rfl
    | cons char rest => exact List.takeWhile_cons_of_neg (by simpa using ends char rfl)
  rw [List.takeWhile_append_of_pos (by simpa using visible), none, List.append_nil]

/-- Quotes end where the first quote is. -/
theorem takeWhile_quoted (closed : '"' ∉ text) (after : List Char) :
    (text ++ '"' :: after).takeWhile (· ≠ '"') = text := by
  rw [List.takeWhile_append_of_pos, List.takeWhile_cons_of_neg (by simp), List.append_nil]
  intro char member
  exact decide_eq_true fun same => closed (same ▸ member)

/-- A word can be told from what stands behind it. -/
theorem Word.eq_of_append (word : Word text) (word' : Word other) (ends : Ends after) (ends' : Ends after')
    (same : text ++ after = other ++ after') : text = other ∧ after = after' := by
  have split (eq : text = other) : text = other ∧ after = after' := by
    subst eq
    exact ⟨rfl, List.append_cancel_left same⟩
  cases word with
  | plain visible =>
    cases word' with
    | plain visible' => exact split (by rw [← takeWhile_word visible ends, same, takeWhile_word visible' ends'])
    | quoted => exact absurd (List.head_eq_of_cons_eq same ▸ by decide) (visible _ List.mem_cons_self)
  | @quoted body closed =>
    cases word' with
    | plain visible' => exact absurd (List.head_eq_of_cons_eq same ▸ by decide) (visible' _ List.mem_cons_self)
    | @quoted body' closed' =>
      have inside : body ++ '"' :: after = body' ++ '"' :: after' := by simpa using same
      have eq : body = body' := by rw [← takeWhile_quoted closed after, inside, takeWhile_quoted closed' after']
      exact split (by rw [eq])

/-- A word does not start like a group, or like what stands behind a form. -/
theorem Word.head (word : Word text) : ∃ first rest, text = first :: rest ∧ first ≠ '(' ∧ first ≠ ')' := by
  cases word with
  | @plain first rest visible =>
    refine ⟨first, rest, rfl, ?_, ?_⟩
    all_goals
      rintro rfl
      exact visible _ List.mem_cons_self (by decide)
  | quoted => exact ⟨_, _, rfl, by decide, by decide⟩

end Words

theorem head_write {form : Sexp} (legal : form.Legal) :
    ∃ first rest, form.write = first :: rest ∧ first ≠ ')' := by
  cases form with
  | word text =>
    rw [Legal] at legal
    obtain ⟨first, rest, same, _, other⟩ := legal.head
    exact ⟨first, rest, by rw [write, same], other⟩
  | group parts => exact ⟨'(', _, by rw [write], by decide⟩

/-- Forms do not start where they close. -/
theorem not_closes_writeAll {first : Sexp} (legal : first.Legal) (rest : List Sexp) :
    ¬ Closes (writeAll between (first :: rest) ++ after) := by
  obtain ⟨head, tail, same, other⟩ := head_write legal
  rw [writeAll, same]
  exact fun closes => other (closes head rfl)

theorem not_closes_writeRest (blank : between ∈ [' ', '\n']) (first : Sexp) (rest : List Sexp) :
    ¬ Closes (writeRest between (first :: rest) ++ after) := by
  intro closes
  rw [writeRest] at closes
  rw [closes between rfl] at blank
  exact absurd blank (by decide)

theorem Ends.writeRest (blank : between ∈ [' ', '\n']) (forms : List Sexp) (ends : Ends after) :
    Ends (writeRest between forms ++ after) := by
  cases forms with
  | nil => exact ends
  | cons first rest =>
    intro char head
    rw [Sexp.writeRest] at head
    cases head
    simp only [List.mem_cons, List.not_mem_nil, or_false] at blank
    rcases blank with rfl | rfl <;> decide

mutual

/-- A form can be told from what stands behind it. -/
theorem eq_of_write : ∀ (form form' : Sexp) {after after' : List Char}, form.Legal → form'.Legal →
    Ends after → Ends after' → form.write ++ after = form'.write ++ after' → form = form' ∧ after = after'
  | .word text, .word text', after, after', legal, legal', ends, ends', same => by
    rw [Legal] at legal legal'
    rw [write, write] at same
    obtain ⟨eq, rest⟩ := legal.eq_of_append legal' ends ends' same
    exact ⟨by rw [String.toList_inj.mp eq], rest⟩
  | .word text, .group parts, _, _, legal, _, _, _, same => by
    rw [Legal] at legal
    obtain ⟨first, rest, split, other, _⟩ := legal.head
    rw [write, write, split] at same
    exact absurd (List.head_eq_of_cons_eq same) other
  | .group parts, .word text, _, _, _, legal, _, _, same => by
    rw [Legal] at legal
    obtain ⟨first, rest, split, other, _⟩ := legal.head
    rw [write, write, split] at same
    exact absurd (List.head_eq_of_cons_eq same).symm other
  | .group parts, .group parts', after, after', legal, legal', _, _, same => by
    rw [Legal] at legal legal'
    have inside : writeAll ' ' parts ++ ')' :: after = writeAll ' ' parts' ++ ')' :: after' := by
      simpa [write] using same
    have closes (later : List Char) : Closes (')' :: later) := by
      intro char head
      cases head
      rfl
    obtain ⟨eq, rest⟩ := eq_of_writeAll (by decide) parts parts' legal legal' (closes _) (closes _) inside
    exact ⟨by rw [eq], List.tail_eq_of_cons_eq rest⟩

theorem eq_of_writeAll {between : Char} (blank : between ∈ [' ', '\n']) : ∀ (forms forms' : List Sexp)
    {after after' : List Char}, LegalAll forms → LegalAll forms' → Closes after → Closes after' →
    writeAll between forms ++ after = writeAll between forms' ++ after' → forms = forms' ∧ after = after'
  | [], [], _, _, _, _, _, _, same => ⟨rfl, same⟩
  | [], _ :: rest, _, _, _, legal, closes, _, same =>
    absurd (show Closes (writeAll between [] ++ _) from closes) (same ▸ not_closes_writeAll legal.1 rest)
  | _ :: rest, [], _, _, legal, _, _, closes, same =>
    absurd (show Closes (writeAll between [] ++ _) from closes) (same ▸ not_closes_writeAll legal.1 rest)
  | first :: rest, first' :: rest', _, _, ⟨legal, legalRest⟩, ⟨legal', legalRest'⟩, closes, closes', same => by
    rw [writeAll, writeAll, List.append_assoc, List.append_assoc] at same
    obtain ⟨eq, later⟩ := eq_of_write first first' legal legal' (closes.ends.writeRest blank rest)
      (closes'.ends.writeRest blank rest') same
    obtain ⟨eqRest, ended⟩ := eq_of_writeRest blank rest rest' legalRest legalRest' closes closes' later
    exact ⟨by rw [eq, eqRest], ended⟩

theorem eq_of_writeRest {between : Char} (blank : between ∈ [' ', '\n']) : ∀ (forms forms' : List Sexp)
    {after after' : List Char}, LegalAll forms → LegalAll forms' → Closes after → Closes after' →
    writeRest between forms ++ after = writeRest between forms' ++ after' → forms = forms' ∧ after = after'
  | [], [], _, _, _, _, _, _, same => ⟨rfl, same⟩
  | [], first :: rest, _, _, _, _, closes, _, same =>
    absurd (show Closes (writeRest between [] ++ _) from closes) (same ▸ not_closes_writeRest blank first rest)
  | first :: rest, [], _, _, _, _, _, closes, same =>
    absurd (show Closes (writeRest between [] ++ _) from closes) (same ▸ not_closes_writeRest blank first rest)
  | first :: rest, first' :: rest', _, _, ⟨legal, legalRest⟩, ⟨legal', legalRest'⟩, closes, closes', same => by
    rw [writeRest, writeRest, List.cons_append, List.cons_append, List.append_assoc, List.append_assoc] at same
    obtain ⟨eq, later⟩ := eq_of_write first first' legal legal' (closes.ends.writeRest blank rest)
      (closes'.ends.writeRest blank rest') (List.tail_eq_of_cons_eq same)
    obtain ⟨eqRest, ended⟩ := eq_of_writeRest blank rest rest' legalRest legalRest' closes closes' later
    exact ⟨by rw [eq, eqRest], ended⟩

end

/-- No two sequences of forms are written alike. -/
theorem writeAll_injective {forms forms' : List Sexp} (blank : between ∈ [' ', '\n']) (legal : LegalAll forms)
    (legal' : LegalAll forms') (same : writeAll between forms = writeAll between forms') : forms = forms' := by
  have closes : Closes [] := fun char head => nomatch head
  exact (eq_of_writeAll blank forms forms' legal legal' closes closes (by rw [same])).1

end Sexp

end Lox
