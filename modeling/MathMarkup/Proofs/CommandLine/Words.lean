import Mathlib
import MathMarkup.CommandLine.Run
import MathMarkup.Proofs.Parse.Reader

/-!
# Lists among the words

A list of numbers is given by a word of its own, a switch with its value attached. On a command line
that is accepted it gives the list wherever it stands, and it can be put in front of all accepted
words that give nothing to convert.
-/
namespace MathMarkup.CommandLine

namespace Arguments

/-- The text of the list that the arguments give for a container. -/
def list? (a : Arguments) : ContainerKind → Option Text
  | .vector => a.vector
  | .matrix => a.matrix

/-- The arguments with a list for a container in addition. -/
def give (a : Arguments) : ContainerKind → Text → Arguments
  | .vector, text => { a with vector := some text }
  | .matrix, text => { a with matrix := some text }

end Arguments

/-- A list as one word. -/
def listWord : ContainerKind → Text → Text
  | .vector, text => "--vector=".toList ++ text
  | .matrix, text => "--matrix=".toList ++ text

/-- The switch that a list is the value of. -/
def listSetting : ContainerKind → Setting
  | .vector => .vector
  | .matrix => .matrix

variable {a b : Arguments} {kind : ContainerKind} {text : Text}

/-! ## Steps of reading -/

/-- A step that accepts what it reads keeps the list that is given for a container. If none is given
after it, it accepts the same beside a list. -/
structure Respects (kind : ContainerKind) (step : Arguments → Except Stop Reading) : Prop where
  keeps : ∀ a r text, step a = .ok r → a.list? kind = some text → r.1.list? kind = some text
  beside : ∀ a r text, step a = .ok r → r.1.list? kind = none →
    step (a.give kind text) = .ok (r.1.give kind text, r.2)

theorem respects_ok (pending : Option Setting) : Respects kind fun a => .ok (a, pending) where
  keeps := by
    rintro a r text ⟨⟩ ha
    exact ha
  beside := by
    rintro a r text ⟨⟩ -
    rfl

theorem respects_error (stop : Stop) : Respects kind fun _ => .error stop where
  keeps := by rintro a r text ⟨⟩
  beside := by rintro a r text ⟨⟩

theorem Respects.of_eq {step other : Arguments → Except Stop Reading} (h : Respects kind step)
    (heq : ∀ a, other a = step a) : Respects kind other := by
  rwa [funext heq]

theorem Respects.bind {step : Arguments → Except Stop Reading}
    {next : Option Setting → Arguments → Except Stop Reading} (hstep : Respects kind step)
    (hnext : ∀ pending, Respects kind (next pending)) :
    Respects kind fun a => (step a).bind fun r => next r.2 r.1 where
  keeps a r text h ha := by
    obtain ⟨first, hfirst, hlast⟩ := Parse.bind_eq_ok.1 h
    exact (hnext first.2).keeps _ _ text hlast (hstep.keeps a first text hfirst ha)
  beside a r text h hr := by
    obtain ⟨first, hfirst, hlast⟩ := Parse.bind_eq_ok.1 h
    -- A list that the first step gives would still be given after the second one.
    have hnone : first.1.list? kind = none := by
      by_contra hsome
      obtain ⟨other, hother⟩ := Option.ne_none_iff_exists'.1 hsome
      cases hr.symm.trans ((hnext first.2).keeps _ _ other hlast hother)
    exact Parse.bind_eq_ok.2 ⟨_, hstep.beside a first text hfirst hnone,
      (hnext first.2).beside _ r text hlast hr⟩

/-- A change of the arguments that has nothing to do with the list for a container. -/
structure Ignores (kind : ContainerKind) (change : Arguments → Except Stop Arguments) : Prop where
  keeps : ∀ a b, change a = .ok b → b.list? kind = a.list? kind
  beside : ∀ a text, change (a.give kind text) = (change a).map (·.give kind text)

theorem Ignores.respects {change : Arguments → Except Stop Arguments} (h : Ignores kind change) :
    Respects kind fun a => (change a).map (·, none) where
  keeps a r text hr ha := by
    obtain ⟨b, hb, rfl⟩ := Parse.map_eq_ok.1 hr
    exact (h.keeps a b hb).trans ha
  beside a r text hr _ := by
    obtain ⟨b, hb, rfl⟩ := Parse.map_eq_ok.1 hr
    rw [h.beside, hb]
    rfl

theorem Ignores.bind {change : Arguments → Except Stop Arguments}
    {next : Arguments → Except Stop Reading} (hchange : Ignores kind change)
    (hnext : Respects kind next) : Respects kind fun a => (change a).bind next := by
  refine (hchange.respects.bind fun _ => hnext).of_eq fun a => ?_
  cases change a <;> rfl

/-! ## Settings, flags and expressions -/

theorem list?_give : (a.give kind text).list? kind = some text := by
  cases kind <;> rfl

theorem set_listSetting (h : a.list? kind = none) :
    a.set (listSetting kind) text = .ok (a.give kind text) := by
  cases kind <;> simp_all [Arguments.list?, Arguments.set, listSetting, Arguments.give]

theorem list?_of_set_listSetting (h : a.set (listSetting kind) text = .ok b) :
    a.list? kind = none ∧ b = a.give kind text := by
  cases hlist : a.list? kind with
  | none =>
    rw [set_listSetting hlist] at h
    exact ⟨rfl, (Except.ok.inj h).symm⟩
  | some old =>
    cases kind <;> simp_all [Arguments.list?, Arguments.set, listSetting]

theorem ignores_set {s : Setting} (h : s ≠ listSetting kind) (value : Text) :
    Ignores kind fun a => a.set s value where
  keeps a b hb := by
    cases kind <;> cases s <;> grind [Arguments.set, Arguments.list?, listSetting]
  beside a text := by
    cases hmode : modeOf? value <;> cases hformat : formatOf? value <;> cases kind <;> cases s <;>
      grind [Arguments.set, Arguments.give, Except.map, listSetting]

theorem ignores_turnOn (f : Flag) : Ignores kind fun a => a.turnOn f where
  keeps a b hb := by
    cases kind <;> cases f <;> grind [Arguments.turnOn, Arguments.list?]
  beside a text := by
    cases kind <;> cases f <;> grind [Arguments.turnOn, Arguments.give, Except.map]

theorem ignores_setExpression (word : Text) : Ignores kind fun a => a.setExpression word where
  keeps a b hb := by
    cases kind <;> grind [Arguments.setExpression, Arguments.list?]
  beside a text := by
    cases kind <;> cases he : a.expression <;>
      simp [Arguments.setExpression, Arguments.give, he, Except.map]

theorem respects_set (s : Setting) (value : Text) :
    Respects kind fun a => (a.set s value).map (·, none) := by
  by_cases hs : s = listSetting kind
  -- A switch is accepted once only, so a list is given after it and none before it.
  · subst hs
    have hgiven (a : Arguments) (r : Reading)
        (h : (a.set (listSetting kind) value).map (·, none) = .ok r) :
        a.list? kind = none ∧ r.1.list? kind = some value := by
      obtain ⟨b, hset, rfl⟩ := Parse.map_eq_ok.1 h
      obtain ⟨hnone, rfl⟩ := list?_of_set_listSetting hset
      exact ⟨hnone, list?_give⟩
    refine ⟨fun a r text h ha => ?_, fun a r text h hr => ?_⟩
    · cases ha.symm.trans (hgiven a r h).1
    · cases hr.symm.trans (hgiven a r h).2
  · exact (ignores_set hs value).respects

/-! ## Words -/

theorem respects_readLong (word : Text) : Respects kind fun a => readLong a word := by
  unfold readLong
  dsimp only
  cases Switch.ofLong? (word.takeWhile (· ≠ '=')) with
  | none => exact respects_error _
  | some switch =>
    cases switch with
    | setting s =>
      cases (word.dropWhile (· ≠ '=')).tail? with
      | none => exact respects_ok _
      | some value => exact respects_set s value
    | flag f =>
      cases (word.dropWhile (· ≠ '=')).tail? with
      | none => exact (ignores_turnOn f).respects
      | some value => exact respects_error _
    | help => cases (word.dropWhile (· ≠ '=')).tail? <;> exact respects_error _
    | version => cases (word.dropWhile (· ≠ '=')).tail? <;> exact respects_error _

theorem respects_readShort (word : Text) : Respects kind fun a => readShort a word := by
  induction word with
  | nil => exact respects_ok none
  | cons c rest ih =>
    unfold readShort
    cases Switch.ofShort? c with
    | none => exact respects_error _
    | some switch =>
      cases switch with
      | flag f =>
        refine ((ignores_turnOn f).bind ih).of_eq fun a => ?_
        dsimp only
        cases a.turnOn f <;> rfl
      | help => exact respects_error _
      | version => exact respects_error _
      | setting s =>
        dsimp only
        split
        · exact respects_ok _
        · exact respects_set _ _
        · exact respects_set _ _

/-- Reads one word; the switch whose value is still to come takes it. A lone double hyphen is none
of the words that are read so. -/
def readWord (pending : Option Setting) (word : Text) (a : Arguments) : Except Stop Reading :=
  match pending, word with
  | some s, word =>
    if isSwitch word then .error (.usage (.missingValue s)) else (a.set s word).map (·, none)
  | none, '-' :: '-' :: long => readLong a long
  | none, '-' :: c :: short => readShort a (c :: short)
  | none, word => (a.setExpression word).map (·, none)

theorem readWords_cons {pending : Option Setting} {word : Text} {words : List Text}
    (h : pending = none → word ≠ ['-', '-']) : readWords a pending (word :: words) =
      (readWord pending word a).bind fun r => readWords r.1 r.2 words := by
  fun_cases readWord pending word a with
  | case1 s word hswitch =>
    simp only [readWords, hswitch, if_true]
    rfl
  | case2 s word hswitch =>
    simp only [readWords, hswitch]
    cases a.set s word <;> rfl
  | case3 long =>
    cases long with
    | nil => exact absurd rfl (h rfl)
    | cons c long =>
      simp only [readWords]
      cases readLong a (c :: long) <;> rfl
  | case4 c short hlong =>
    rw [readWords]
    · cases readShort a (c :: short) <;> rfl
    · exact fun hc _ => hlong hc
    · exact hlong
  | case5 word hlong hshort =>
    rw [readWords]
    · cases a.setExpression word <;> rfl
    · exact h rfl
    · exact hlong
    · exact hshort

theorem respects_readWord (pending : Option Setting) (word : Text) :
    Respects kind (readWord pending word) := by
  unfold readWord
  split
  · split
    · exact respects_error _
    · exact respects_set _ _
  · exact respects_readLong _
  · exact respects_readShort _
  · exact (ignores_setExpression _).respects

theorem respects_readPlain (words : List Text) :
    Respects kind fun a => (readPlain a words).map (·, none) := by
  induction words with
  | nil => exact respects_ok none
  | cons word words ih =>
    refine ((ignores_setExpression word).bind ih).of_eq fun a => ?_
    rw [readPlain]
    cases a.setExpression word <;> rfl

theorem respects_readWords (pending : Option Setting) (words : List Text) :
    Respects kind fun a => (readWords a pending words).map (·, none) := by
  induction words generalizing pending with
  | nil =>
    cases pending with
    | none => exact respects_ok none
    | some s => exact respects_error _
  | cons word words ih =>
    -- A lone double hyphen is not read by itself: it makes all words after it expressions.
    by_cases hplain : pending = none ∧ word = ['-', '-']
    · obtain ⟨rfl, rfl⟩ := hplain
      exact respects_readPlain words
    · refine ((respects_readWord pending word).bind ih).of_eq fun a => ?_
      rw [readWords_cons fun hnone hword => hplain ⟨hnone, hword⟩]
      cases readWord pending word a <;> rfl

/-! ## The list on a command line -/

theorem isSwitch_listWord : isSwitch (listWord kind text) = true := by
  cases kind <;> rfl

theorem readWord_listWord (a : Arguments) : readWord none (listWord kind text) a =
    (a.set (listSetting kind) text).map (·, none) := by
  cases kind <;> rfl

theorem listWord_ne : listWord kind text ≠ ['-', '-'] := by
  cases kind <;> nofun

variable {words : List Text} {pending : Option Setting}

theorem list?_of_readWords (h : readWords a pending words = .ok b)
    (hlist : a.list? kind = some text) : b.list? kind = some text :=
  (respects_readWords pending words).keeps a (b, none) text (Parse.map_eq_ok.2 ⟨b, h, rfl⟩) hlist

theorem readWords_give (h : readWords a pending words = .ok b) (hlist : b.list? kind = none) :
    readWords (a.give kind text) pending words = .ok (b.give kind text) := by
  have hbeside := (respects_readWords pending words).beside a (b, none) text
    (Parse.map_eq_ok.2 ⟨b, h, rfl⟩) hlist
  obtain ⟨c, hc, heq⟩ := Parse.map_eq_ok.1 hbeside
  rw [hc, (Prod.mk.inj heq).1]

/-- A word that gives a list is read as such in front of a lone double hyphen. -/
theorem list?_of_mem (h : readWords a pending words = .ok b)
    (hmem : listWord kind text ∈ words.takeWhile (· ≠ "--".toList)) : b.list? kind = some text := by
  induction words generalizing a pending with
  | nil => cases hmem
  | cons word words ih =>
    have hword : word ≠ ['-', '-'] := by
      rintro rfl
      cases hmem
    rw [List.takeWhile_cons_of_pos (by simpa using hword), List.mem_cons] at hmem
    rw [readWords_cons fun _ => hword] at h
    obtain ⟨r, hr, h⟩ := Parse.bind_eq_ok.1 h
    rcases hmem with rfl | hmem
    · cases pending with
      | some s =>
        rw [readWord, if_pos isSwitch_listWord] at hr
        cases hr
      | none =>
        rw [readWord_listWord] at hr
        obtain ⟨c, hset, rfl⟩ := Parse.map_eq_ok.1 hr
        obtain ⟨-, rfl⟩ := list?_of_set_listSetting hset
        exact list?_of_readWords h list?_give
    · exact ih h hmem

theorem read_eq_ok (h : Arguments.read words = .ok a) :
    readWords .empty none words = .ok a ∧
      ([a.expression, a.vector, a.matrix].filter Option.isSome).length ≤ 1 := by
  unfold Arguments.read at h
  cases hread : readWords .empty none words with
  | error stop =>
    rw [hread] at h
    cases h
  | ok b =>
    rw [hread] at h
    simp only [Arguments.check] at h
    split at h
    · cases h
    · next hfew =>
      cases h
      exact ⟨rfl, Nat.le_of_not_lt hfew⟩

theorem list?_of_read (h : Arguments.read words = .ok a)
    (hmem : listWord kind text ∈ words.takeWhile (· ≠ "--".toList)) : a.list? kind = some text :=
  list?_of_mem (read_eq_ok h).1 hmem

/-- Only one thing is converted. -/
theorem vector_eq_none_of_read (h : Arguments.read words = .ok a) (hmatrix : a.matrix = some text) :
    a.vector = none := by
  have hfew := (read_eq_ok h).2
  rw [hmatrix] at hfew
  cases hvector : a.vector with
  | none => rfl
  | some other =>
    rw [hvector] at hfew
    revert hfew
    cases a.expression <;> simp

/-- A list can be put in front of words that give nothing to convert. -/
theorem read_listWord_cons (h : Arguments.read words = .ok a) (hexpression : a.expression = none)
    (hvector : a.vector = none) (hmatrix : a.matrix = none) (kind : ContainerKind) (text : Text) :
    Arguments.read (listWord kind text :: words) = .ok (a.give kind text) := by
  have hlist : a.list? kind = none := by cases kind <;> assumption
  have hfirst : readWord none (listWord kind text) .empty =
      .ok (Arguments.empty.give kind text, none) := by
    rw [readWord_listWord, set_listSetting (by cases kind <;> rfl)]
    rfl
  have hwords : readWords .empty none (listWord kind text :: words) = .ok (a.give kind text) := by
    rw [readWords_cons fun _ => listWord_ne, hfirst]
    exact readWords_give (read_eq_ok h).1 hlist
  rw [Arguments.read, hwords]
  cases kind <;> simp [Arguments.check, Arguments.give, hexpression, hvector, hmatrix]

end MathMarkup.CommandLine
