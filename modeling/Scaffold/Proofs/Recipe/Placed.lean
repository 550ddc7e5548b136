import Scaffold.Proofs.Name.Shapes
import Scaffold.Proofs.Recipe.Modules

namespace Scaffold

open Text

def Path.IsIn (f dir : Path) : Prop := ∃ s, f.components = dir.components ++ [.name s]

theorem Path.isIn_join {dir : Path} {s : Text} (hs : IsSegment s) : (dir.join ⟨s⟩).IsIn dir :=
  ⟨s, Path.components_join hs⟩

namespace Product

variable {p : Product} {l : Layout} {n : Name} {r : Recipe}

theorem dir_of_service {s : Service} (hs : p.service? = some s) :
    s.dir = .apiDir ∨ s.dir = .webhooksDir := by
  cases p with
  | page k =>
      cases k with
      | static => cases hs
      | dashboard | feed => cases hs; exact .inl rfl
  | table => cases hs
  | webhook => cases hs; exact .inr rfl

theorem isIn_of_mem_modules {m : Module} (hm : m ∈ p.modules l n) :
    m.path.IsIn (l.pageDir n) ∨ m.path.IsIn (l.path .apiDir) ∨ m.path.IsIn (l.path .webhooksDir) := by
  rcases List.mem_append.1 hm with hm | hm
  · obtain ⟨d, hd, rfl⟩ := List.mem_map.1 hm
    obtain ⟨name, hname, hpath⟩ := exists_name_of_draft (l := l) (n := n) hd
    refine .inl ?_
    rw [hpath]
    exact Path.isIn_join hname
  · obtain ⟨s, hs, rfl⟩ := List.mem_map.1 hm
    have hin : Path.IsIn (s.file l n) (l.path s.dir) := Path.isIn_join n.isSegment_module
    rcases dir_of_service (Option.mem_toList.1 hs) with hdir | hdir
    · exact .inr (.inl (hdir ▸ hin))
    · exact .inr (.inr (hdir ▸ hin))

end Product

/-- The forms of a name are words that tell it, and the files that are generated for it are in a
directory of its own or are called by it. -/
theorem forms_fit_name (n : Name) :
    (IsWord Char.isUpper Char.isAlphanum n.pascal ∧ n.camel = n.pascal.modifyHead Char.toLower ∧
      n.pascal.map Char.toLower = n.kebab.filter (· != '-') ∧
      n.camel.map Char.toLower = n.kebab.filter (· != '-')) ∧
    (IsWord Char.isLower (fun c => c.isLower || c.isDigit || c == '_') n.snake ∧
      Name.hyphenated n.snake = n.kebab ∧ ∀ m : Name, m.snake = n.snake → m = n) ∧
    (IsWord Char.isUpper (fun c => c.isUpper || c.isDigit || c == '_') n.screaming ∧
      Name.hyphenated n.screaming = n.kebab ∧ ∀ m : Name, m.screaming = n.screaming → m = n) ∧
    (∀ dir : Path, ∀ s ∈ [n.kebab, n.kebab ++ ".ts"],
      (dir.join ⟨s⟩).components = dir.components ++ [.name s]) ∧
    ∀ (p : Product) (l : Layout), ∃ r, p.recipe l n = .ok r ∧ ∀ e ∈ r.files,
      e.path.IsIn (l.pageDir n) ∧
        (l.pageDir n).components = (l.path .clientDir).components ++ [.name n.kebab] ∨
      e.path.IsIn (l.path .apiDir) ∨ e.path.IsIn (l.path .webhooksDir) := by
  refine ⟨⟨n.isWord_pascal, n.camel_eq, n.map_toLower_pascal, n.map_toLower_camel⟩,
    ⟨n.isWord_snake, Name.hyphenated_snake, fun m hm => ?_⟩,
    ⟨n.isWord_screaming, Name.hyphenated_screaming, fun m hm => ?_⟩, fun dir s hs => ?_,
    fun p l => ?_⟩
  · exact Name.eq_of_kebab_eq (Name.kebab_eq_of_snake_eq hm)
  · exact Name.eq_of_kebab_eq (Name.kebab_eq_of_screaming_eq hm)
  · simp only [List.mem_cons, List.not_mem_nil, or_false] at hs
    rcases hs with rfl | rfl
    · exact Path.components_join n.isSegment_kebab
    · exact Path.components_join n.isSegment_module
  · obtain ⟨r, hr, -⟩ := p.exists_recipe l n
    refine ⟨r, hr, fun e he => ?_⟩
    rw [Product.files_eq hr] at he
    obtain ⟨m, hm, rfl⟩ := List.mem_map.1 he
    have hpage : (l.pageDir n).components = (l.path .clientDir).components ++ [.name n.kebab] :=
      Path.components_join n.isSegment_kebab
    exact (Product.isIn_of_mem_modules hm).imp_left fun h => ⟨h, hpage⟩

theorem check_report : Name.check "report-2024" = .ok () := by
  have hword : "report-2024".toList ∉ reservedWords := by
    unfold reservedWords
    simp (disch := with_reducible rfl) only [Text.toList_eq]
    decide +kernel
  rw [Name.check, if_neg hword]
  decide +kernel

theorem forms_fit_name_report :
    let n : Name := ⟨"report-2024", check_report⟩
    let l := Layout.default ⟨"app"⟩
    n.pascal = "Report2024" ∧ n.pascal.map Char.toLower = "report2024".toList ∧
      (∀ m : Name, m.snake = "report_2024" → m = n) ∧
      (∀ m : Name, m.screaming = "REPORT_2024" → m = n) ∧
      (Path.join ⟨"app/src/server/api/."⟩ ⟨"report-2024.ts"⟩).components =
        Path.components ⟨"app/src/server/api"⟩ ++ [.name "report-2024.ts"] ∧
      ∃ r, (Product.page .feed).recipe l n = .ok r ∧
        ∃ e ∈ r.files, e.path = ⟨"app/src/client/report-2024/useReport2024Items.ts"⟩ ∧
          (e.path.IsIn (l.pageDir n) ∧
            (l.pageDir n).components = (l.path .clientDir).components ++ [.name "report-2024"] ∨
          e.path.IsIn (l.path .apiDir) ∨ e.path.IsIn (l.path .webhooksDir)) := by
  intro n l
  obtain ⟨⟨-, -, hlower, -⟩, ⟨-, -, hsnake⟩, ⟨-, -, hscreaming⟩, hjoin, hfiles⟩ := forms_fit_name n
  obtain ⟨r, hr, hplaced⟩ := hfiles (.page .feed) l
  have hpath : (l.pageDir n).join ⟨"useReport2024Items.ts"⟩ =
      ⟨"app/src/client/report-2024/useReport2024Items.ts"⟩ := by decide +kernel
  have hhook : (⟨(l.pageDir n).join ⟨"useReport2024Items.ts"⟩, Template.Feed.hook⟩ : Module) ∈
      (Product.page .feed).modules l n := by
    rw [Product.modules_page]
    exact List.mem_append_left _ (List.mem_append_right _ List.mem_cons_self)
  have hmem := Product.mem_files hr hhook
  refine ⟨by decide +kernel, hlower.trans (by decide +kernel),
    fun m hm => hsnake m (hm.trans (by decide +kernel)),
    fun m hm => hscreaming m (hm.trans (by decide +kernel)), ?_, r, hr, _, hmem, hpath,
    hplaced _ hmem⟩
  have hdir : Path.components ⟨"app/src/server/api/."⟩ = Path.components ⟨"app/src/server/api"⟩ := by
    decide +kernel
  exact (hjoin ⟨"app/src/server/api/."⟩ "report-2024.ts" (by decide +kernel)).trans (by rw [hdir])

end Scaffold
