import Mathlib
import MathMarkup.Document.Export
import MathMarkup.Proofs.Path.Extension

/-!
# Targets of exports

A file name without an extension is given that of the format, behind all that it has, and any other
file name is kept. The target then lies in the save location. Only a file name that names nothing
lets the extension fall on the save location itself.
-/
namespace MathMarkup

theorem Format.extension_plain (format : Format) :
    '/' ∉ format.extension ∧ '.' ∉ format.extension ∧ 1 < format.extension.length := by
  cases format <;> decide

section

variable {settings : Settings} {format : Format} {filename name : Text}

theorem targetPath_of_mem (hname : (Path.mk filename).fileName? = some name)
    (hdot : '.' ∈ name.tail) : targetPath filename format settings = settings.pathOf filename := by
  obtain ⟨extension, hextension⟩ := Option.isSome_iff_exists.1 (Path.isSome_splitExtension.2 hdot)
  simp only [targetPath, Path.extension?, hname, hextension]

theorem targetPath_of_not_mem
    (h : ∀ name, (Path.mk filename).fileName? = some name → '.' ∉ name.tail) :
    targetPath filename format settings =
      (settings.pathOf filename).withExtension format.extension := by
  have hnone : (Path.mk filename).extension? = none := by
    unfold Path.extension?
    split
    · next name hname => rw [Path.splitExtension_of_not_mem (h name hname)]
    · rfl
  simp only [targetPath, hnone]

theorem targetPath_of_fileName? (hname : (Path.mk filename).fileName? = some name)
    (hdot : '.' ∉ name.tail) : targetPath filename format settings =
      (settings.pathOf filename).withExtension format.extension := by
  refine targetPath_of_not_mem fun other hother => ?_
  cases hname.symm.trans hother
  exact hdot

end

/-! ## Names of targets -/

/-- The last name of a target, for the last name of a file name. -/
def exportedName (format : Format) (name : Text) : Text :=
  if '.' ∈ name.tail then name else name ++ '.' :: format.extension

theorem mem_tail_exportedName (format : Format) {name : Text} (hne : name ≠ []) :
    '.' ∈ (exportedName format name).tail := by
  unfold exportedName
  split_ifs with hdot
  · exact hdot
  · rw [List.tail_append_of_ne_nil hne]
    simp

section

variable {settings : Settings} {filename name : Text}

/-- A target is the path in the save location with another last name. -/
theorem components_targetPath (format : Format)
    (hname : (Path.mk filename).fileName? = some name) :
    (targetPath filename format settings).components =
      (settings.pathOf filename).components.dropLast ++ [.name (exportedName format name)] := by
  obtain ⟨hslash, -, hlength⟩ := format.extension_plain
  obtain ⟨front, tail, hfile⟩ := Path.exists_endsIn hname
  obtain ⟨more, hjoined⟩ := hfile.join settings.saveLocation
  unfold exportedName
  split_ifs with hdot
  · rw [targetPath_of_mem hname hdot]
    exact hjoined.components_eq
  · have hmoved := hjoined.withExtension hslash hlength
    rw [Path.splitExtension_of_not_mem hdot] at hmoved
    rw [targetPath_of_fileName? hname hdot]
    exact hjoined.components_of_endsIn hmoved

/-- The file name that has the format's extension already. -/
theorem targetPath_of_carried {front tail : List Text} (format other : Format)
    (hfile : (Path.mk filename).EndsIn front name tail) (hdot : '.' ∉ name.tail) :
    targetPath (Text.join ['/'] (front ++ [name]) ++ '.' :: format.extension) other settings =
      targetPath filename format settings := by
  obtain ⟨hslash, -, hlength⟩ := format.extension_plain
  have hrenamed := hfile.withExtension hslash hlength
  have hcarried := mem_tail_exportedName format hfile.ne_nil
  have hmoved := hfile.join_withExtension settings.saveLocation hslash hlength
  rw [exportedName, if_neg hdot] at hcarried
  rw [Path.splitExtension_of_not_mem hdot, hfile.withExtension_of_not_mem hdot] at hrenamed
  rw [hfile.withExtension_of_not_mem hdot] at hmoved
  rw [targetPath_of_mem hrenamed.fileName?_eq hcarried,
    targetPath_of_fileName? hfile.fileName?_eq hdot]
  exact hmoved

end

/-- A plain file name in a plain save location makes a plain target. -/
theorem isPlain_targetPath {settings : Settings} {filename : Text} (format : Format)
    (hlocation : settings.saveLocation.IsPlain) (hfilename : (Path.mk filename).IsPlain) :
    (targetPath filename format settings).IsPlain := by
  have hpath : (settings.pathOf filename).IsPlain := hfilename.join hlocation
  unfold targetPath
  split
  · exact hpath
  · cases format <;> exact hpath.withExtension (by decide) (by decide) (by decide)

/-- A file name with an extension is exported to the path that it has in the save location, whatever
the format. Any other one is exported to that path with the format's extension behind its last name,
in place of what says nothing there; and the file name that has this extension already is exported
to the same path in every format. -/
theorem targetPath_appends_extension (settings : Settings) (format : Format) {filename name : Text}
    (hname : (Path.mk filename).fileName? = some name) :
    name ≠ ['.', '.'] ∧
    (settings.pathOf filename).components.getLast? = some (.name name) ∧
    ('.' ∈ name.tail →
      ∀ other : Format, targetPath filename other settings = settings.pathOf filename) ∧
    ('.' ∉ name.tail →
      (targetPath filename format settings).components =
          (settings.pathOf filename).components.dropLast ++
            [.name (name ++ '.' :: format.extension)] ∧
        ∃ before base trailing, filename = base ++ trailing ∧ name <:+ base ∧
          Path.IsTrailing trailing ∧ (settings.pathOf filename).text = before ++ filename ∧
          (targetPath filename format settings).text = before ++ base ++ '.' :: format.extension ∧
          ∀ other : Format, targetPath (base ++ '.' :: format.extension) other settings =
            targetPath filename format settings) ∧
    ∃ last, (targetPath filename format settings).fileName? = some last ∧ '.' ∈ last.tail := by
  obtain ⟨front, tail, hfile⟩ := Path.exists_endsIn hname
  obtain ⟨before, more, hjoined, hbase, hbefore⟩ := hfile.exists_join settings.saveLocation
  have hcomponents := @components_targetPath settings filename name format hname
  refine ⟨?_, Path.fileName?_eq_some.1 hjoined.fileName?_eq,
    fun hdot other => targetPath_of_mem hname hdot, fun hdot => ⟨?_, before,
      Text.join ['/'] (front ++ [name]), (tail.map ('/' :: ·)).flatten, hfile.text_eq,
      Path.suffix_join_concat front name, Path.isTrailing_of_silent hfile.silent, hbefore _ rfl, ?_,
      fun other => targetPath_of_carried format other hfile hdot⟩,
    exportedName format name, ?_, mem_tail_exportedName format hfile.ne_nil⟩
  · rintro rfl
    cases hfile.named
  · rw [hcomponents, exportedName, if_neg hdot]
  · rw [targetPath_of_fileName? hname hdot, ← hbase]
    exact congrArg Path.text (hjoined.withExtension_of_not_mem hdot _)
  · rw [Path.fileName?_eq_some, hcomponents, List.getLast?_concat]

/-- The dot of a hidden file begins no extension, and the dot at the end of a name begins one. -/
theorem targetPath_appends_extension_hidden :
    let settings : Settings := ⟨.compact, Path.ofString "out.d", .empty⟩
    let hidden : Text := "sub/.hidden//.".toList
    let dotted : Text := "a.b.".toList
    (Path.mk hidden).fileName? = some ".hidden".toList ∧
    (Path.mk dotted).fileName? = some dotted ∧
    targetPath hidden .plain settings = Path.ofString "out.d/sub/.hidden.txt" ∧
    (∃ last, (targetPath hidden .plain settings).fileName? = some last ∧ '.' ∈ last.tail) ∧
    (targetPath hidden .plain settings).components =
      (settings.pathOf hidden).components.dropLast ++ [.name ".hidden.txt".toList] ∧
    ∀ format : Format, targetPath dotted format settings = Path.ofString "out.d/a.b." := by
  intro settings hidden dotted
  have hhidden : (Path.mk hidden).fileName? = some ".hidden".toList := by decide
  have hdotted : (Path.mk dotted).fileName? = some dotted := by decide
  obtain ⟨-, -, -, happended, hlast⟩ := targetPath_appends_extension settings .plain hhidden
  obtain ⟨-, -, hkept, -⟩ := targetPath_appends_extension settings .plain hdotted
  exact ⟨hhidden, hdotted, by decide, hlast, (happended (by decide)).1, hkept (by decide)⟩

/-! ## Targets and the save location -/

section

variable {settings : Settings} {filename : Text}

theorem components_pathOf (hrelative : (Path.mk filename).isAbsolute = false)
    (hlocation : settings.saveLocation.text ≠ []) : (settings.pathOf filename).components =
      settings.saveLocation.components ++ Path.said (Path.mk filename).parts :=
  Path.components_join hrelative hlocation

/-- A file name that names something has a target in the save location. -/
theorem isPrefix_targetPath (format : Format)
    (hrelative : (Path.mk filename).isAbsolute = false) {name : Text}
    (hname : (Path.mk filename).fileName? = some name)
    (hlocation : settings.saveLocation.text ≠ []) :
    settings.saveLocation.components <+: (targetPath filename format settings).components := by
  obtain ⟨front, tail, hfile⟩ := Path.exists_endsIn hname
  rw [components_targetPath format hname, components_pathOf hrelative hlocation, hfile.said_eq,
    ← List.append_assoc, List.dropLast_concat, List.append_assoc]
  exact List.prefix_append _ _

/-- A file name that names nothing makes the save location itself the target. -/
theorem targetPath_of_said_nil (format : Format)
    (hrelative : (Path.mk filename).isAbsolute = false)
    (hsaid : Path.said (Path.mk filename).parts = [])
    (hlocation : settings.saveLocation.text ≠ []) :
    (settings.saveLocation.fileName? = none → (targetPath filename format settings).components =
        settings.saveLocation.components) ∧
    ∀ name, settings.saveLocation.fileName? = some name →
      settings.saveLocation.components =
          settings.saveLocation.components.dropLast ++ [.name name] ∧
        (targetPath filename format settings).components =
          settings.saveLocation.components.dropLast ++
            [.name ((Path.splitExtension name).1 ++ '.' :: format.extension)] := by
  obtain ⟨hslash, -, hlength⟩ := format.extension_plain
  have hcomponents := components_pathOf hrelative hlocation
  rw [hsaid, List.append_nil] at hcomponents
  have hfile : (settings.pathOf filename).fileName? = settings.saveLocation.fileName? := by
    rw [Path.fileName?, hcomponents]
    rfl
  have htarget : targetPath filename format settings =
      (settings.pathOf filename).withExtension format.extension := by
    refine targetPath_of_not_mem fun name hname => ?_
    obtain ⟨front, tail, hfile⟩ := Path.exists_endsIn hname
    rw [hfile.said_eq] at hsaid
    simp at hsaid
  rw [htarget, ← hfile, ← hcomponents]
  refine ⟨fun hnone => by rw [Path.withExtension_of_fileName? hnone], fun name hname => ?_⟩
  obtain ⟨front, tail, hjoined⟩ := Path.exists_endsIn hname
  exact ⟨hjoined.components_eq, hjoined.components_of_endsIn (hjoined.withExtension hslash hlength)⟩

end

/-- The target of a relative file name that does not step up lies in the save location, unless the
file name names nothing: then the extension falls on the last name of the save location, which has
to have it already. -/
theorem targetPath_inside_iff (settings : Settings) (format : Format) {filename : Text}
    (hrelative : (Path.mk filename).isAbsolute = false)
    (hparent : .parent ∉ (Path.mk filename).components) :
    (settings.saveLocation.components <+: (targetPath filename format settings).components ↔
      (∃ name, .name name ∈ (Path.mk filename).components) ∨
        ∀ name, settings.saveLocation.fileName? = some name →
          ∃ stem, stem ≠ [] ∧ name = stem ++ '.' :: format.extension) ∧
    ∀ name, settings.saveLocation.fileName? = some name →
      (∀ name, .name name ∉ (Path.mk filename).components) →
        (targetPath filename format settings).components =
          settings.saveLocation.components.dropLast ++
            [.name ((Path.splitExtension name).1 ++ '.' :: format.extension)] := by
  by_cases hlocation : settings.saveLocation.text = []
  · have hnil : settings.saveLocation.components = [] := by
      rw [show settings.saveLocation = Path.mk [] from congrArg Path.mk hlocation]
      rfl
    have hnone : settings.saveLocation.fileName? = none := by
      rw [Path.fileName?, hnil]
      rfl
    simp [hnil, hnone]
  by_cases hname : ∃ name, .name name ∈ (Path.mk filename).components
  · obtain ⟨name, hmem⟩ := hname
    obtain ⟨last, hlast⟩ := Path.exists_fileName? hparent hmem
    exact ⟨iff_of_true (isPrefix_targetPath format hrelative hlast hlocation) (Or.inl ⟨name, hmem⟩),
      fun _ _ hnone => absurd hmem (hnone name)⟩
  · have hnames := not_exists.1 hname
    obtain ⟨hkept, hrenamed⟩ := targetPath_of_said_nil format hrelative
      (Path.said_eq_nil hparent hnames) hlocation
    refine ⟨?_, fun name hlast _ => (hrenamed name hlast).2⟩
    simp only [hname, false_or]
    cases hlast : settings.saveLocation.fileName? with
    | none => simp [hkept hlast]
    | some name =>
      obtain ⟨hbefore, hafter⟩ := hrenamed name hlast
      obtain ⟨front, tail, hends⟩ := Path.exists_endsIn hlast
      rw [hafter, hbefore, List.dropLast_concat, List.prefix_append_right_inj]
      have hstem := Path.stem_ne_nil hends.ne_nil
      constructor
      · rintro ⟨rest, hrest⟩ other ⟨⟩
        simp only [List.singleton_append, List.cons.injEq, Path.Component.name.injEq] at hrest
        exact ⟨_, hstem, hrest.1⟩
      · intro h
        obtain ⟨stem, hne, rfl⟩ := h name rfl
        rw [Path.splitExtension_append hne format.extension_plain.2.1]

theorem targetPath_inside_iff_nested :
    let settings : Settings := ⟨.compact, Path.ofString "out.d", .empty⟩
    let filename : Text := "./sub/a".toList
    (Path.mk filename).isAbsolute = false ∧ .parent ∉ (Path.mk filename).components ∧
    settings.saveLocation.components <+: (targetPath filename .plain settings).components := by
  intro settings filename
  have hrelative : (Path.mk filename).isAbsolute = false := rfl
  have hparent : .parent ∉ (Path.mk filename).components := by decide
  have hinside := (targetPath_inside_iff settings .plain hrelative hparent).1
  exact ⟨hrelative, hparent, hinside.2 (Or.inl ⟨['a'], by decide⟩)⟩

/-- The empty file name has no extension and is exported beside the save location. -/
theorem targetPath_beside_location :
    let settings : Settings := ⟨.compact, Path.ofString "out.d", .empty⟩
    (Path.mk []).isAbsolute = false ∧ .parent ∉ (Path.mk []).components ∧
    targetPath [] .plain settings = Path.ofString "out.txt" ∧
    ¬ settings.saveLocation.components <+: (targetPath [] .plain settings).components := by
  intro settings
  exact ⟨rfl, by decide, by decide, by decide⟩

end MathMarkup
