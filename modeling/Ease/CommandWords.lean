import Ease.Commands

/-! What a command line means: its first word, and the text after it without the spaces
around it. -/

namespace Ease.Shell

def BlankText (text : List Char) : Prop := ∀ c ∈ text, isWhiteSpace c = true

structure TrimmedText (text : List Char) : Prop where
  first : ∀ c ∈ text.head?, isWhiteSpace c = false
  last : ∀ c ∈ text.getLast?, isWhiteSpace c = false

def byteLen (text : List Char) : Nat := (text.map Char.utf8Size).sum

section Trim

variable {front back text : List Char}

theorem blankText_nil : BlankText [] := by
  intro c member
  exact absurd member List.not_mem_nil

theorem trim_blank (blank : BlankText text) : trim text = [] := by
  rw [trim, List.dropWhile_eq_nil_iff.mpr blank, List.rdropWhile_nil]

theorem BlankText.append (first : BlankText front) (second : BlankText back) :
    BlankText (front ++ back) := by
  intro c member
  rcases List.mem_append.mp member with inFirst | inSecond
  · exact first c inFirst
  · exact second c inSecond

theorem TrimmedText.dropWhile (trimmed : TrimmedText text) (some : text ≠ []) (rest : List Char) :
    (text ++ rest).dropWhile isWhiteSpace = text ++ rest := by
  cases text with
  | nil => exact absurd rfl some
  | cons c text =>
      apply List.dropWhile_cons_of_neg
      rw [trimmed.first c rfl]
      exact Bool.false_ne_true

theorem TrimmedText.rdropWhile (trimmed : TrimmedText text) :
    text.rdropWhile isWhiteSpace = text := by
  apply List.rdropWhile_eq_self_iff.mpr
  intro some
  rw [trimmed.last _ (List.getLast?_eq_some_getLast some)]
  exact Bool.false_ne_true

theorem rdropWhile_append_blank (text : List Char) (blank : BlankText back) :
    (text ++ back).rdropWhile isWhiteSpace = text.rdropWhile isWhiteSpace := by
  rw [List.rdropWhile, List.reverse_append, List.dropWhile_append_of_pos]
  · rfl
  · intro c member
    exact blank c (List.mem_reverse.mp member)

theorem trim_padded (before : BlankText front) (trimmed : TrimmedText text)
    (after : BlankText back) : trim (front ++ text ++ back) = text := by
  by_cases empty : text = []
  · subst empty
    rw [List.append_nil]
    exact trim_blank (before.append after)
  · rw [trim, List.append_assoc, List.dropWhile_append_of_pos before,
      trimmed.dropWhile empty, rdropWhile_append_blank text after, trimmed.rdropWhile]

end Trim

section Find

variable {wanted : Char} {front back text : List Char}

theorem byteLen_append (front back : List Char) :
    byteLen (front ++ back) = byteLen front + byteLen back := by
  rw [byteLen, List.map_append, List.sum_append]
  rfl

theorem findChar_absent (absent : wanted ∉ text) : findChar wanted text = none := by
  induction text with
  | nil => rfl
  | cons c text ih =>
      rcases List.ne_and_not_mem_of_not_mem_cons absent with ⟨other, absent⟩
      rw [findChar, if_neg other.symm, ih absent]
      rfl

theorem findChar_first (absent : wanted ∉ front) :
    findChar wanted (front ++ wanted :: back) = some (byteLen front) := by
  induction front with
  | nil => exact if_pos rfl
  | cons c front ih =>
      rcases List.ne_and_not_mem_of_not_mem_cons absent with ⟨other, absent⟩
      rw [List.cons_append, findChar, if_neg other.symm, ih absent]
      rfl

theorem exists_first (wanted : Char) (text : List Char) :
    wanted ∉ text ∨ ∃ front back, text = front ++ wanted :: back ∧ wanted ∉ front := by
  by_cases present : wanted ∈ text
  · rcases List.eq_append_cons_of_mem present with ⟨front, back, split, absent⟩
    exact .inr ⟨front, back, split, absent⟩
  · exact .inl present

theorem splitAtByte_ok (front back : List Char) :
    splitAtByte (byteLen front) (front ++ back) = .ok (front, back) := by
  induction front with
  | nil =>
      rw [List.nil_append]
      exact splitAtByte.eq_1 back
  | cons c front ih =>
      have positive := c.utf8Size_pos
      have size : byteLen (c :: front) = (c.utf8Size - 1 + byteLen front) + 1 := by
        rw [byteLen, List.map_cons, List.sum_cons, ← byteLen]
        omega
      have fits : c.utf8Size ≤ c.utf8Size - 1 + byteLen front + 1 := by omega
      have rest : c.utf8Size - 1 + byteLen front + 1 - c.utf8Size = byteLen front := by omega
      rw [size, List.cons_append, splitAtByte, if_pos fits, rest, ih, Exec.ok_bind]

end Find

section Parse

variable {line : String} {word rest : List Char}

theorem parseCommand_blank (trimmed : trim line.toList = []) : parseCommand line = .ok none := by
  rw [parseCommand]
  exact if_pos trimmed

theorem parseCommand_word (trimmed : trim line.toList = word) (some : word ≠ [])
    (solid : ' ' ∉ word) : parseCommand line = .ok (.some (String.ofList word, "")) := by
  rw [parseCommand]
  dsimp only
  rw [trimmed, if_neg some, findChar_absent solid]

/-- Both slices fall between characters: the space is one byte. -/
theorem parseCommand_args (trimmed : trim line.toList = word ++ ' ' :: rest)
    (solid : ' ' ∉ word) :
    parseCommand line = .ok (some (String.ofList word, String.ofList (trim rest))) := by
  have afterSpace : byteLen word + 1 = byteLen (word ++ [' ']) := by
    rw [byteLen_append]
    rfl
  have second : splitAtByte (byteLen word + 1) (word ++ ' ' :: rest) =
      .ok (word ++ [' '], rest) := by
    rw [afterSpace, List.append_cons word ' ' rest]
    exact splitAtByte_ok _ _
  rw [parseCommand]
  dsimp only
  rw [trimmed, if_neg (List.append_ne_nil_of_right_ne_nil _ (List.cons_ne_nil _ _)),
    findChar_first solid]
  dsimp only
  rw [splitAtByte_ok, Exec.ok_bind]
  dsimp only
  rw [second, Exec.ok_bind]

theorem parseCommand_completes (line : String) : ∃ parsed, parseCommand line = .ok parsed := by
  rcases exists_first ' ' (trim line.toList) with absent | ⟨word, rest, trimmed, solid⟩
  · by_cases blank : trim line.toList = []
    · exact ⟨none, parseCommand_blank blank⟩
    · exact ⟨_, parseCommand_word rfl blank absent⟩
  · exact ⟨_, parseCommand_args trimmed solid⟩

theorem execute_of_parse {line cmd args : String}
    (parsed : parseCommand line = .ok (some (cmd, args))) :
    execute line = .ok (dispatch cmd args) := by
  rw [execute, parsed, Exec.ok_bind]

end Parse

structure CommandWord (word : List Char) : Prop where
  some : word ≠ []
  solid : ∀ c ∈ word, isWhiteSpace c = false

def spaces (count : Nat) : String := String.ofList (List.replicate count ' ')

section Words

variable {before word args after : List Char}

theorem CommandWord.noSpace (command : CommandWord word) : ' ' ∉ word := by
  intro member
  have solid := command.solid ' ' member
  exact absurd solid (by decide)

theorem CommandWord.trimmed (command : CommandWord word) : TrimmedText word where
  first c head := command.solid c (List.mem_of_mem_head? head)
  last c last := command.solid c (List.mem_of_getLast? last)

theorem blank_spaces (count : Nat) : BlankText (List.replicate count ' ') := by
  intro c member
  rw [List.eq_of_mem_replicate member]
  decide

theorem TrimmedText.append (first : TrimmedText word) (last : TrimmedText args)
    (someWord : word ≠ []) (someArgs : args ≠ []) (middle : List Char) :
    TrimmedText (word ++ (middle ++ args)) where
  first c head := by
    rw [List.head?_append_of_ne_nil _ someWord] at head
    exact first.first c head
  last c final := by
    rw [List.getLast?_append_of_ne_nil _ (List.append_ne_nil_of_right_ne_nil _ someArgs),
      List.getLast?_append_of_ne_nil _ someArgs] at final
    exact last.last c final

theorem parseCommand_words (line : String) (count : Nat) (blankBefore : BlankText before)
    (command : CommandWord word) (trimmed : TrimmedText args) (blankAfter : BlankText after)
    (characters : line.toList =
      before ++ word ++ List.replicate (count + 1) ' ' ++ args ++ after) :
    parseCommand line = .ok (some (String.ofList word, String.ofList args)) := by
  by_cases empty : args = []
  · subst empty
    have shape : line.toList = before ++ word ++ (List.replicate (count + 1) ' ' ++ after) := by
      rw [characters, List.append_nil, List.append_assoc]
    apply parseCommand_word _ command.some command.noSpace
    rw [shape]
    exact trim_padded blankBefore command.trimmed ((blank_spaces _).append blankAfter)
  · have shape : line.toList =
        before ++ (word ++ (List.replicate (count + 1) ' ' ++ args)) ++ after := by
      rw [characters, List.append_assoc before, List.append_assoc before, List.append_assoc word]
    have whole := command.trimmed.append trimmed command.some empty
      (List.replicate (count + 1) ' ')
    have rest : trim (List.replicate count ' ' ++ args) = args := by
      have padded := trim_padded (blank_spaces count) trimmed blankText_nil
      rwa [List.append_nil] at padded
    rw [← rest]
    apply parseCommand_args _ command.noSpace
    rw [shape, trim_padded blankBefore whole blankAfter, List.replicate_succ, List.cons_append]

end Words

/-- What a line does depends on its first word and on the text after it without the
spaces around it; every line is parsed. -/
theorem execute_depends_on_words :
    (∀ (p w a q : String) (k : Nat), BlankText p.toList → CommandWord w.toList →
      TrimmedText a.toList → BlankText q.toList → 1 ≤ k →
        parseCommand (p ++ w ++ spaces k ++ a ++ q) = .ok (some (w, a)) ∧
        parseCommand (w ++ " " ++ a) = .ok (some (w, a)) ∧
        execute (p ++ w ++ spaces k ++ a ++ q) = .ok (dispatch w a) ∧
        execute (w ++ " " ++ a) = .ok (dispatch w a)) ∧
    (∀ p : String, BlankText p.toList → parseCommand p = .ok none ∧ execute p = .ok []) ∧
    ∀ line, ∃ parsed output, parseCommand line = .ok parsed ∧ execute line = .ok output := by
  refine ⟨fun p w a q k before command trimmed after positive => ?_, fun p blank => ?_,
    fun line => ?_⟩
  · rcases Nat.exists_eq_add_of_le' positive with ⟨count, rfl⟩
    have padded : parseCommand (p ++ w ++ spaces (count + 1) ++ a ++ q) = .ok (some (w, a)) := by
      have parsed := parseCommand_words (p ++ w ++ spaces (count + 1) ++ a ++ q) count before
        command trimmed after (by simp only [String.toList_append, spaces, String.toList_ofList])
      rwa [String.ofList_toList, String.ofList_toList] at parsed
    have plain : parseCommand (w ++ " " ++ a) = .ok (some (w, a)) := by
      have parsed := parseCommand_words (w ++ " " ++ a) 0 blankText_nil command trimmed
        blankText_nil (by rw [String.toList_append, String.toList_append, List.append_nil]; rfl)
      rwa [String.ofList_toList, String.ofList_toList] at parsed
    exact ⟨padded, plain, execute_of_parse padded, execute_of_parse plain⟩
  · have parsed := parseCommand_blank (trim_blank blank)
    exact ⟨parsed, by rw [execute, parsed, Exec.ok_bind]⟩
  · rcases parseCommand_completes line with ⟨parsed, complete⟩
    cases parsed with
    | none => exact ⟨none, [], complete, by rw [execute, complete, Exec.ok_bind]⟩
    | some words => exact ⟨some words, _, complete, execute_of_parse complete⟩

theorem execute_padded_echo :
    execute "\t echo   a  b \n" = .ok (Commands.echo "a  b") := by
  have before : BlankText "\t ".toList := List.all_eq_true.mp rfl
  have after : BlankText " \n".toList := List.all_eq_true.mp rfl
  have command : CommandWord "echo".toList :=
    ⟨List.cons_ne_nil _ _, fun c member => eq_false_of_ne_true (List.any_eq_false.mp rfl c member)⟩
  have trimmed : TrimmedText "a  b".toList :=
    ⟨fun c first => Option.some.inj first ▸ rfl, fun c last => Option.some.inj last ▸ rfl⟩
  have words := execute_depends_on_words.1 "\t " "echo" "a  b" " \n" 3 before command trimmed
    after (by decide)
  exact words.2.2.1

end Ease.Shell
