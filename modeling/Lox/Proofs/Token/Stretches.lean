import Lox.Proofs.Token.Lines
import Mathlib.Data.List.Induction
import Mathlib.Data.List.TakeWhile

/-!
Texts cut into stretches. From left to right, and without anything in between, a text is made of tokens, faulty
stretches, single blanks and comments. What is found in it is placed by the line feeds that come before: by their
number, and by how far back the last of them is.
-/
namespace Lox

/-- The offset right after the last line feed of a text, or that of its beginning. -/
structure Text.LineStart (text : List Char) (offset : Nat) : Prop where
  inside : offset ≤ text.length
  feed : offset = 0 ∨ text[offset - 1]? = some '\n'
  last : '\n' ∉ text.drop offset

/-- The place at the end of a text whose first line has the number `line`. -/
structure Position.Ends (position : Position) (line : Int) (text : List Char) : Prop where
  line : position.line = line + text.count '\n'
  col : ∃ offset, Text.LineStart text offset ∧ position.col = text.length - offset

namespace Text.LineStart

variable {text : List Char} {offset : Nat}

theorem feed_last (text : List Char) : LineStart (text ++ ['\n']) (text ++ ['\n']).length := by
  refine ⟨Nat.le_refl _, .inr ?_, ?_⟩
  · simp
  · simp

theorem snoc (start : LineStart text offset) {char : Char} (other : char ≠ '\n') :
    LineStart (text ++ [char]) offset := by
  refine ⟨?_, ?_, ?_⟩
  · rw [List.length_append]
    exact Nat.le_add_right_of_le start.inside
  · rcases start.feed with first | feed
    · exact .inl first
    · have within : offset - 1 < text.length := (List.getElem?_eq_some_iff.mp feed).1
      exact .inr (by rwa [List.getElem?_append_left within])
  · rw [List.drop_append_of_le_length start.inside, List.mem_append, not_or]
    exact ⟨start.last, by simpa using other.symm⟩

end Text.LineStart

/-- Places are counted as line feeds say. -/
theorem Position.ends_after (line : Int) (text : List Char) : Ends ((⟨line, 0⟩ : Position).after text) line text := by
  refine ⟨line_after _ text, ?_⟩
  induction text using List.reverseRecOn with
  | nil => exact ⟨0, ⟨Nat.le_refl _, .inl rfl, by simp⟩, rfl⟩
  | append_singleton text char ih =>
    obtain ⟨offset, start, col⟩ := ih
    have step : (⟨line, 0⟩ : Position).after (text ++ [char]) = ((⟨line, 0⟩ : Position).after text).advance char :=
      after_append ..
    rw [step, advance]
    split
    · rename_i feed
      subst feed
      exact ⟨_, .feed_last text, by simp⟩
    · rename_i other
      refine ⟨offset, start.snoc other, ?_⟩
      have inside := start.inside
      simp only [col, List.length_append, List.length_singleton]
      omega

namespace Scan

/-- What a stretch of a text gives: a token, a fault, or nothing. -/
inductive Mark where
  | token (token : Token)
  | fault (fault : Located ScanFault)
  | nothing

structure Stretch where
  text : List Char
  mark : Mark

namespace Stretch

def token? : Stretch → Option Token
  | ⟨_, .token token⟩ => some token
  | _ => none

def fault? : Stretch → Option (Located ScanFault)
  | ⟨_, .fault fault⟩ => some fault
  | _ => none

end Stretch

/-- What stands between tokens: a single blank, or a comment with all that comes before the next line feed. -/
def Silent (text after : List Char) : Prop :=
  (∃ char ∈ [' ', '\t', '\r', '\n'], text = [char]) ∨
    ∃ words, text = '/' :: '/' :: words ∧ '\n' ∉ words ∧ (after = [] ∨ after.head? = some '\n')

/-- A character that nothing starts with. -/
def Stray (char : Char) : Prop :=
  single? char = none ∧ double? char = none ∧ char ≠ '/' ∧ char ∉ [' ', '\t', '\r', '\n'] ∧ char ≠ '"' ∧
    Number.isDigit char = false ∧ isLetter char = false

/-- What a faulty stretch is: a stray character, or all of the text from a quote on that no other one follows. -/
def Faulty (text after : List Char) : ScanFault → Prop
  | .unexpectedCharacter => ∃ char, text = [char] ∧ Stray char
  | .unterminatedString => ∃ words, text = '"' :: words ∧ '"' ∉ words ∧ after = []

/-- What a role says about a stretch of a text. -/
def Fits (text after : List Char) : Role → Prop
  | .token kind _ => kind ≠ .eof
  | .fault cause => Faulty text after cause
  | .gap => Silent text after

/-- What a stretch has to be where it stands, between what comes before it and what comes after it. -/
def Stretch.Fits (stretch : Stretch) (line : Int) (before after : List Char) : Prop :=
  stretch.text ≠ [] ∧
    match stretch.mark with
    | .token token => token.lexeme = String.ofList stretch.text ∧ token.kind ≠ .eof ∧ token.position.Ends line before
    | .fault fault => fault.token.lexeme = String.ofList stretch.text ∧ fault.token.position.Ends line before ∧
        Faulty stretch.text after fault.cause
    | .nothing => Silent stretch.text after

section Classes

variable {first char : Char} {rest text : List Char} {role : Role} {extent : Nat}

theorem isGap_iff : isGap char = true ↔ char ∈ [' ', '\t', '\r', '\n'] := by
  simp [isGap]
  tauto

theorem ne_eof_of_single? {kind : TokenKind} (found : single? char = some kind) : kind ≠ .eof := by
  rintro rfl
  cases text?_of_single? found

theorem ne_eof_of_double? {plain withEqual : TokenKind} (found : double? char = some (plain, withEqual)) :
    plain ≠ .eof ∧ withEqual ≠ .eof := by
  obtain ⟨alone, followed⟩ := text?_of_double? found
  constructor
  · rintro rfl
    cases alone
  · rintro rfl
    cases followed

theorem ofWord_ne_eof (word : String) : TokenKind.ofWord word ≠ .eof := by
  intro same
  have listed := ofWord_mem word
  rw [same] at listed
  exact absurd listed (by decide)

theorem drop_length_takeWhile (test : Char → Bool) (text : List Char) :
    text.drop (text.takeWhile test).length = text.dropWhile test := by
  have whole : text.takeWhile test ++ text.dropWhile test = text := List.takeWhile_append_dropWhile
  calc
    text.drop (text.takeWhile test).length =
        (text.takeWhile test ++ text.dropWhile test).drop (text.takeWhile test).length := by rw [whole]
    _ = text.dropWhile test := List.drop_left

/-- A comment stops short of the next line feed. -/
theorem silent_of_comment (words : List Char) :
    let extent := (('/' :: words).takeWhile (· != '\n')).length
    Silent ('/' :: ('/' :: words).take extent) (('/' :: words).drop extent) := by
  intro extent
  have taken : ('/' :: words).take extent = '/' :: words.takeWhile (· != '\n') :=
    (List.prefix_iff_eq_take.mp (List.takeWhile_prefix (· != '\n'))).symm
  have left : ('/' :: words).drop extent = words.dropWhile (· != '\n') := drop_length_takeWhile _ _
  rw [taken, left]
  refine .inr ⟨_, rfl, fun member => ?_, ?_⟩
  · simpa using List.mem_takeWhile_imp member
  · have ends := List.head?_dropWhile_not (· != '\n') words
    cases shape : words.dropWhile (· != '\n') with
    | nil => exact .inl rfl
    | cons char more =>
      rw [shape] at ends
      exact .inr (by simpa using ends)

/-- Without a quote to close it, a string goes on to the end. -/
theorem faulty_of_open (whole : rest.length ≤ (rest.takeWhile (· != '"')).length) :
    Faulty ('"' :: rest.take rest.length) (rest.drop rest.length) .unterminatedString := by
  have all : rest.takeWhile (· != '"') = rest := (List.takeWhile_prefix _).eq_of_length_le whole
  rw [List.take_length, List.drop_length]
  refine ⟨rest, rfl, fun member => ?_, rfl⟩
  simpa using List.takeWhile_eq_self_iff.mp all '"' member

/-- What is classified fits where it is. -/
theorem fits_of_classify (classified : classify first rest = (role, extent)) :
    Fits (first :: rest.take extent) (rest.drop extent) role := by
  unfold classify at classified
  split at classified
  · rename_i found
    cases classified
    exact ne_eof_of_single? found
  rename_i notSingle
  split at classified
  · rename_i found
    obtain ⟨alone, followed⟩ := ne_eof_of_double? found
    split at classified <;> cases classified
    · exact followed
    · exact alone
  rename_i notDouble
  split at classified
  · rename_i isSlash
    subst isSlash
    split at classified <;> cases classified
    · rename_i isSlash
      obtain ⟨others, rfl⟩ := List.head?_eq_some_iff.mp isSlash
      exact silent_of_comment others
    · exact TokenKind.noConfusion
  rename_i notSlash
  split at classified
  · rename_i isBlank
    cases classified
    exact .inl ⟨first, isGap_iff.mp isBlank, rfl⟩
  rename_i notBlank
  split at classified
  · rename_i isQuote
    subst isQuote
    unfold stringRole at classified
    dsimp only at classified
    split at classified <;> cases classified
    · exact TokenKind.noConfusion
    · rename_i open_
      exact faulty_of_open (Nat.not_lt.mp open_)
  rename_i notQuote
  split at classified
  · cases classified
    exact TokenKind.noConfusion
  rename_i notDigit
  split at classified
  · cases classified
    exact ofWord_ne_eof _
  · rename_i notLetter
    cases classified
    refine ⟨first, rfl, ?_, ?_, notSlash, ?_, notQuote, ?_, ?_⟩
    · exact Option.eq_none_iff_forall_ne_some.mpr fun kind => notSingle kind
    · exact Option.eq_none_iff_forall_ne_some.mpr fun kinds => notDouble kinds.1 kinds.2
    · rwa [← isGap_iff]
    · simpa using notDigit
    · simpa using notLetter

end Classes

section Cuts

variable {position place : Position} {list : List Piece} {piece : Piece} {before after : List (Position × Piece)}

theorem map_snd_locate (position : Position) (list : List Piece) : (locate position list).map Prod.snd = list := by
  induction list generalizing position with
  | nil => rfl
  | cons head rest ih => rw [locate, List.map_cons, ih]

/-- Where a list of pieces is parted, the text that the earlier ones have taken tells the place. -/
theorem split_of_locate (split : locate position list = before ++ (place, piece) :: after) :
    list = before.map Prod.snd ++ piece :: after.map Prod.snd ∧
      place = position.after (before.flatMap fun entry => entry.2.text) := by
  induction before generalizing position list with
  | nil =>
    cases list with
    | nil => cases split
    | cons head rest =>
      obtain ⟨same, rfl⟩ := List.cons.inj split
      obtain ⟨rfl, rfl⟩ := Prod.mk.inj same
      exact ⟨by rw [List.map_nil, List.nil_append, map_snd_locate], rfl⟩
  | cons first before ih =>
    cases list with
    | nil => cases split
    | cons head rest =>
      obtain ⟨rfl, further⟩ := List.cons.inj split
      obtain ⟨rfl, rfl⟩ := ih further
      refine ⟨rfl, ?_⟩
      rw [List.flatMap_cons, Position.after_append]

/-- A piece is what the text that goes on from there is classified as, and the pieces after it are those of the rest. -/
theorem classify_of_pieces {text : List Char} {before after : List Piece}
    (split : pieces text = before ++ piece :: after) : Fits piece.text (after.flatMap Piece.text) piece.role ∧ piece.text ≠ [] := by
  fun_induction pieces text generalizing before with
  | case1 =>
    cases before <;> cases split
  | case2 first rest role extent classified ih =>
    cases before with
    | nil =>
      obtain ⟨rfl, rfl⟩ := List.cons.inj split
      rw [flatMap_text_pieces]
      exact ⟨fits_of_classify classified, List.cons_ne_nil _ _⟩
    | cons head before => exact ih (List.cons.inj split).2

/-- The stretch of a text that a piece is. -/
def Stretch.ofPiece : Position × Piece → Stretch
  | (position, ⟨text, .token kind literal⟩) => ⟨text, .token ⟨kind, String.ofList text, literal, position⟩⟩
  | (position, ⟨text, .fault cause⟩) => ⟨text, .fault ⟨cause, ⟨.eof, String.ofList text, none, position⟩⟩⟩
  | (_, ⟨text, .gap⟩) => ⟨text, .nothing⟩

@[simp]
theorem Stretch.text_ofPiece (entry : Position × Piece) : (ofPiece entry).text = entry.2.text := by
  obtain ⟨position, text, role⟩ := entry
  cases role <;> rfl

@[simp]
theorem Stretch.token?_ofPiece (entry : Position × Piece) : (ofPiece entry).token? = Scan.token? entry := by
  obtain ⟨position, text, role⟩ := entry
  cases role <;> rfl

@[simp]
theorem Stretch.fault?_ofPiece (entry : Position × Piece) : (ofPiece entry).fault? = Scan.fault? entry := by
  obtain ⟨position, text, role⟩ := entry
  cases role <;> rfl

theorem Stretch.fits_ofPiece {line : Int} {text after : List Char} {entry : Position × Piece}
    (fits : Scan.Fits entry.2.text after entry.2.role) (visible : entry.2.text ≠ []) (place : entry.1.Ends line text) :
    (ofPiece entry).Fits line text after := by
  obtain ⟨position, spelling, role⟩ := entry
  cases role with
  | token kind literal => exact ⟨visible, rfl, fits, place⟩
  | fault cause => exact ⟨visible, rfl, place, fits⟩
  | gap => exact ⟨visible, fits⟩

/-- Wherever a text is parted between its stretches, the one that comes next fits there. -/
theorem Stretch.fits_of_split {line : Int} {text : List Char} {before after : List Stretch} {stretch : Stretch}
    (split : (locate ⟨line, 0⟩ (pieces text)).map ofPiece = before ++ stretch :: after) :
    stretch.Fits line (before.flatMap Stretch.text) (after.flatMap Stretch.text) := by
  obtain ⟨earlier, rest, parted, rfl, later⟩ := List.map_eq_append_iff.mp split
  obtain ⟨⟨place, piece⟩, further, rfl, rfl, rfl⟩ := List.map_eq_cons_iff.mp later
  obtain ⟨listed, rfl⟩ := split_of_locate parted
  obtain ⟨fits, visible⟩ := classify_of_pieces listed
  simp only [List.flatMap_map, Stretch.text_ofPiece] at fits ⊢
  exact fits_ofPiece fits visible (Position.ends_after line _)

theorem ne_eof_of_mem {text : List Char} {line : Int} {token : Token} (member : token ∈ (ofText text line).tokens) :
    token.kind ≠ .eof := by
  obtain ⟨⟨position, spelling, role⟩, placed, same⟩ := List.mem_filterMap.mp member
  cases role with
  | token kind literal =>
    cases same
    obtain ⟨first, rest, extent, classified, _⟩ := classify_of_mem_pieces (mem_of_mem_locate placed)
    exact fits_of_classify classified
  | fault cause => cases same
  | gap => cases same

/-- Of all tokens, the end mark is the only one of its kind. -/
theorem kind_eq_eof_iff {text : List Char} {line : Int} {index : Nat} {token : Token}
    (found : (ofText text line).all[index]? = some token) :
    token.kind = .eof ↔ index + 1 = (ofText text line).all.length := by
  have length : (ofText text line).all.length = (ofText text line).tokens.length + 1 := List.length_append
  rw [length]
  by_cases earlier : index < (ofText text line).tokens.length
  · rw [all, List.getElem?_append_left earlier] at found
    have other := ne_eof_of_mem (List.mem_of_getElem? found)
    exact iff_of_false other (by omega)
  · rw [all, List.getElem?_append_right (Nat.not_lt.mp earlier)] at found
    have last := (List.getElem?_eq_some_iff.mp found).1
    rw [List.length_singleton] at last
    obtain rfl := List.mem_singleton.mp (List.mem_of_getElem? found)
    exact iff_of_true rfl (by omega)

end Cuts

/-- Nothing of a text is lost, and all is where it says. A text is cut, from left to right, into tokens, faulty
stretches, single blanks and comments; those that are found in it come in the order of the text, and each of them, the
end mark included, starts in the line and column that the line feeds before it give. The end mark is the only one of its
kind, and the last of all tokens. -/
theorem ofText_cuts_text (text : String) (line : Int) :
    let scan := ofText text.toList line
    ∃ stretches : List Stretch,
      stretches.flatMap Stretch.text = text.toList ∧
      (∀ before stretch after, stretches = before ++ stretch :: after →
        stretch.Fits line (before.flatMap Stretch.text) (after.flatMap Stretch.text)) ∧
      scan.tokens = stretches.filterMap Stretch.token? ∧ scan.faults = stretches.filterMap Stretch.fault? ∧
      scan.finish.lexeme = "" ∧ scan.finish.position.Ends line text.toList ∧
      ∀ (index : Nat) (token : Token), scan.all[index]? = some token →
        (token.kind = .eof ↔ index + 1 = scan.all.length) := by
  intro scan
  have tokens : Stretch.token? ∘ Stretch.ofPiece = Scan.token? := funext Stretch.token?_ofPiece
  have faults : Stretch.fault? ∘ Stretch.ofPiece = Scan.fault? := funext Stretch.fault?_ofPiece
  refine ⟨(locate ⟨line, 0⟩ (pieces text.toList)).map Stretch.ofPiece, ?_,
    fun _ _ _ => Stretch.fits_of_split, ?_, ?_, rfl, Position.ends_after line _, fun index token found => ?_⟩
  · simp only [List.flatMap_map, Stretch.text_ofPiece]
    rw [← List.flatMap_map, map_snd_locate, flatMap_text_pieces]
  · rw [List.filterMap_map, tokens]
    rfl
  · rw [List.filterMap_map, faults]
    rfl
  · exact kind_eq_eof_iff found

end Scan

end Lox
