import Scaffold.Proofs.Insertion.Routes
import Scaffold.Proofs.Template.Marks

namespace Scaffold

inductive Line.Routes (route : Text) : Line → Prop
  | note {us : Line} (hus : ∀ p ∈ us, ∃ u : Text, u.IsMute ∧ p = .text u) :
      Routes route (.text "// " :: .slot .kebab :: us)
  | handler {verb u v : Text} (hverb : verb = "get" ∨ verb = "post") (hu : u.IsMute)
      (hv : v.IsMute) : Routes route [.text ("app." ++ verb ++ "('" ++ route), .slot .kebab,
        .text ('\'' :: u), .slot .pascal, .text v]

structure Template.Routes (t : Template) (route : Text) : Prop where
  lines : ∀ line ∈ t.lines, line.Routes route
  note : ∃ line more, t.lines = (.text "// " :: line) :: more

variable {route kebab pascal : Text} {b : Bindings}

theorem Line.Routes.fill {line : Line} (h : line.Routes route) (hb : b .kebab = some kebab)
    (hb' : b .pascal = some pascal) (hkebab : kebab.IsMute) (hpascal : pascal.IsMute) :
    RouteLine (route ++ kebab) (line.flatMap (Piece.fill b)) := by
  cases h with
  | @note us hus =>
      have hrest : Text.IsMute (us.flatMap (Piece.fill b)) := by
        intro c hc
        obtain ⟨p, hp, hcp⟩ := List.mem_flatMap.1 hc
        obtain ⟨u, hu, rfl⟩ := hus p hp
        exact hu c hcp
      have hline : RouteLine (route ++ kebab) ("// " ++ (kebab ++ us.flatMap (Piece.fill b))) :=
        .note (hkebab.append hrest)
      simpa [Piece.fill, hb] using hline
  | @handler verb u v hverb hu hv =>
      have hline : RouteLine (route ++ kebab) _ := .handler hverb ((hu.append hpascal).append hv)
      simpa [Piece.fill, hb, hb'] using hline

theorem Line.Routes.fill_ne_nil {line : Line} (h : line.Routes route) (b : Bindings) :
    line.flatMap (Piece.fill b) ≠ [] := by
  cases h <;> simp [Piece.fill]

namespace Template

theorem fill_eq_unlines (t : Template) (b : Bindings) :
    t.fill b = Text.unlines (t.lines.map fun line => line.flatMap (Piece.fill b)) := by
  rw [fill, pieces, Text.unlines, List.flatMap_map, List.flatMap_assoc]
  congr 1
  funext line
  rw [List.flatMap_append]
  rfl

theorem Routes.exists_lines {t : Template} (h : t.Routes route) (hb : b .kebab = some kebab)
    (hb' : b .pascal = some pascal) (hkebab : kebab.IsMute) (hpascal : pascal.IsMute) :
    ∃ ls, t.fill b = Text.unlines ls ∧ (∀ l ∈ ls, RouteLine (route ++ kebab) l ∧ l ≠ []) ∧
      (Text.unlines ls).head? = some '/' := by
  refine ⟨_, t.fill_eq_unlines b, fun l hl => ?_, ?_⟩
  · obtain ⟨line, hline, rfl⟩ := List.mem_map.1 hl
    have hroutes := h.lines line hline
    exact ⟨hroutes.fill hb hb' hkebab hpascal, hroutes.fill_ne_nil b⟩
  · obtain ⟨line, more, hlines⟩ := h.note
    rw [hlines]
    rfl

theorem routes_dashboard : Dashboard.routes.Routes "/api/" := by
  refine ⟨?_, _, _, rfl⟩
  change ∀ line ∈ [_, _], _
  simp only [List.mem_cons, List.not_mem_nil, or_false, forall_eq_or_imp, forall_eq]
  have hname : Text.IsMute ", get" := by decide
  have hend : Text.IsMute "StatsHandler);" := by decide
  exact ⟨.note (by simp), .handler (.inl rfl) hname hend⟩

theorem routes_feed : Feed.routes.Routes "/api/" := by
  refine ⟨?_, _, _, rfl⟩
  change ∀ line ∈ [_, _, _], _
  simp only [List.mem_cons, List.not_mem_nil, or_false, forall_eq_or_imp, forall_eq]
  have hlist : Text.IsMute ", list" := by decide
  have hitems : Text.IsMute "ItemsHandler);" := by decide
  have hcreate : Text.IsMute ", create" := by decide
  have hitem : Text.IsMute "ItemHandler);" := by decide
  exact ⟨.note (by simp), .handler (.inl rfl) hlist hitems, .handler (.inr rfl) hcreate hitem⟩

theorem routes_webhook : Webhook.routes.Routes "/webhooks/" := by
  refine ⟨?_, _, _, rfl⟩
  change ∀ line ∈ [_, _], _
  simp only [List.mem_cons, List.not_mem_nil, or_false, forall_eq_or_imp, forall_eq]
  have hnote : Text.IsMute " webhook" := by decide
  have hname : Text.IsMute ", handle" := by decide
  have hend : Text.IsMute "Webhook);" := by decide
  exact ⟨.note fun p hp => ⟨_, hnote, List.mem_singleton.1 hp⟩, .handler (.inr rfl) hname hend⟩

end Template

end Scaffold
