import DottedNames.Proofs.QualName.Underscore
import DottedNames.Proofs.Token.Locality
import DottedNames.Proofs.Token.Names

/-!
# Scanning written names

Names are written one after the other, with separators between them: texts without word characters
and dots. Looking for the names in such a text gives the names back, each up to its first underscore
(`find_writeAll`). Nothing is found in what is left out of a name, because a written name is one run
and a run contributes one token at most.
-/

namespace DottedNames

open Grammar

variable {q : QualName} {t before : Text} {x : Char}

/-- A text without word characters and dots. -/
def Text.Separates (t : Text) : Prop := ∀ x ∈ t, isRunChar x = false

-- The characters of the text are gone through, and not those of the finite type of characters.
instance : DecidablePred Text.Separates := fun t =>
  List.decidableBAll (fun x => Text.isRunChar x = false) t

/-- The written forms of some names, each with the text that stands behind it. -/
def QualName.writeAll (entries : List (QualName × Text)) : Text :=
  entries.flatMap fun e => e.1.text ++ e.2

/-! ## Runs of separators and of written names -/

theorem Run.ofText_of_separates (h : t.Separates) : ofText t = [] := by
  rw [List.eq_nil_iff_forall_not_mem]
  intro r hr
  obtain ⟨hne, hrun, u, v, rfl, -⟩ := mem_ofText_iff.1 hr
  obtain ⟨x, hx⟩ := List.exists_mem_of_ne_nil _ hne
  have hsep : Text.isRunChar x = false := h x (by simp [hx])
  rw [hrun x hx] at hsep
  cases hsep

/-- A text of word characters and dots only is one run. -/
theorem Run.ofText_of_forall_isRunChar (hne : t ≠ []) (h : ∀ x ∈ t, Text.isRunChar x = true) :
    ofText t = [⟨0, t⟩] := by
  have hwhole : (⟨0, t⟩ : Run) ∈ ofText t :=
    mem_ofText_iff.2 ⟨hne, h, [], [], by simp, rfl, by simp, by simp⟩
  have honly : ∀ r ∈ ofText t, r.start = 0 := by
    intro r hr
    obtain ⟨-, -, u, v, hsplit, hstart, hleft, -⟩ := mem_ofText_iff.1 hr
    cases hlast : u.getLast? with
    | none => rw [hstart, List.getLast?_eq_none_iff.1 hlast, List.length_nil]
    | some x =>
      have hx : x ∈ t := by simp [hsplit, List.mem_of_getLast? hlast]
      have hsep := hleft x hlast
      rw [h x hx] at hsep
      cases hsep
  have hpairwise := pairwise_ofText t
  match hruns : ofText t with
  | [] => simp [hruns] at hwhole
  | [r] =>
    rw [hruns, List.mem_singleton] at hwhole
    rw [hwhole]
  | r :: s :: rest =>
    rw [hruns] at hpairwise honly
    have hlt : r.start < s.start := (List.pairwise_cons.1 hpairwise).1 s List.mem_cons_self
    have hr := honly r List.mem_cons_self
    have hs := honly s (List.mem_cons_of_mem r List.mem_cons_self)
    omega

theorem QualName.text_ne_nil (q : QualName) : q.text ≠ [] := by
  intro h
  have hpre := q.longest_upToUnderscore.holds.isPrefix
  rw [h, List.prefix_nil] at hpre
  exact ne_nil_of_mem_dottedNames q.text_upToUnderscore_mem_dottedNames hpre

theorem QualName.isRunChar_of_mem_text (hx : x ∈ q.text) : Text.isRunChar x = true := by
  rcases mem_join hx with rfl | ⟨p, hp, hxp⟩
  · exact Run.isRunChar_dot
  · exact Run.isRunChar_of_isNameChar (isNameChar_of_mem_names (mem_names_of_mem_texts hp) x hxp)

/-! ## The tokens of written names -/

namespace Token

theorem scan_of_separates (h : t.Separates) : scan t = [] := by
  rw [scan_eq_filterMap_runs, Run.ofText_of_separates h, List.filterMap_nil]

theorem map_text_scan_append_cons (hx : Text.isRunChar x = false) (s rest : Text) :
    (scan (s ++ x :: rest)).map text = (scan s).map text ++ (scan rest).map text := by
  rw [scan_append_cons hx, List.map_append, List.map_map]
  rfl

/-- The one token of a written name is the name up to its first underscore. -/
theorem scan_text (q : QualName) :
    scan q.text = [⟨q.upToUnderscore.text, 0, q.upToUnderscore.text.length⟩] := by
  have htoken : Run.token? ⟨0, q.text⟩ =
      some ⟨q.upToUnderscore.text, 0, q.upToUnderscore.text.length⟩ := by
    refine Run.token?_eq_some_iff.2
      ⟨q.upToUnderscore.text, q.longest_upToUnderscore, q.eq_dot_of_mem_head?_drop, ?_⟩
    simp
  rw [scan_eq_filterMap_runs, Run.ofText_of_forall_isRunChar q.text_ne_nil fun x hx =>
    q.isRunChar_of_mem_text hx, List.filterMap_cons, htoken, List.filterMap_nil]

/-- Separators in front of a name change nothing but the place of its token. -/
theorem map_text_scan_append_text (hbefore : before.Separates) (q : QualName) :
    (scan (before ++ q.text)).map text = [q.upToUnderscore.text] := by
  rcases List.eq_nil_or_concat before with rfl | ⟨init, x, rfl⟩
  · rw [List.nil_append, scan_text]
    rfl
  · rw [List.concat_eq_append] at hbefore ⊢
    have hx : Text.isRunChar x = false := hbefore x (by simp)
    have hinit : Text.Separates init := fun y hy => hbefore y (List.mem_append_left _ hy)
    rw [List.append_assoc, List.singleton_append, map_text_scan_append_cons hx,
      scan_of_separates hinit, scan_text]
    rfl

/-- The tokens of names written one after the other are the names up to their first underscores. -/
theorem map_text_scan_writeAll {entries : List (QualName × Text)} (hbefore : before.Separates)
    (hbehind : ∀ e ∈ entries, Text.Separates e.2) (hne : ∀ e ∈ entries.dropLast, e.2 ≠ []) :
    (scan (before ++ QualName.writeAll entries)).map text =
      entries.map fun e => e.1.upToUnderscore.text := by
  induction entries generalizing before with
  | nil =>
    have hnone : scan (before ++ QualName.writeAll []) = [] :=
      scan_of_separates (by simpa [QualName.writeAll] using hbefore)
    rw [hnone]
    rfl
  | cons e entries ih =>
    obtain ⟨q, behind⟩ := e
    have hsep : behind.Separates := hbehind _ List.mem_cons_self
    have hlater : ∀ e ∈ entries, Text.Separates e.2 := fun e he =>
      hbehind e (List.mem_cons_of_mem _ he)
    cases behind with
    | nil =>
      -- Without a separator behind it, the name is the last one.
      have hlast : entries = [] := by
        by_contra hentries
        rw [List.dropLast_cons_of_ne_nil hentries] at hne
        exact hne _ List.mem_cons_self rfl
      subst hlast
      simpa [QualName.writeAll] using map_text_scan_append_text hbefore q
    | cons x behind =>
      have hx : Text.isRunChar x = false := hsep x List.mem_cons_self
      have hbehind' : Text.Separates behind := fun y hy => hsep y (List.mem_cons_of_mem x hy)
      have hne' : ∀ e ∈ entries.dropLast, e.2 ≠ [] := by
        intro e he
        cases entries with
        | nil => cases he
        | cons f entries =>
          rw [List.dropLast_cons_of_ne_nil (List.cons_ne_nil f entries)] at hne
          exact hne e (List.mem_cons_of_mem _ he)
      have hsplit : before ++ QualName.writeAll ((q, x :: behind) :: entries) =
          (before ++ q.text) ++ x :: (behind ++ QualName.writeAll entries) := by
        simp [QualName.writeAll]
      rw [hsplit, map_text_scan_append_cons hx, map_text_scan_append_text hbefore,
        ih hbehind' hlater hne']
      rfl

end Token

/-- Where names are written one after the other, separated and with any separators in front of them
and behind them, the names up to their first underscores are found, as many and in the same order.
These are the names themselves exactly when none has an underscore before its last segment. -/
theorem find_writeAll (s : Session) (before : Text) (entries : List (QualName × Text))
    (hbefore : before.Separates) (hbehind : ∀ e ∈ entries, Text.Separates e.2)
    (hne : ∀ e ∈ entries.dropLast, e.2 ≠ []) :
    (s.find (.text (before ++ QualName.writeAll entries))).2.2 =
      .ok (entries.map fun e => e.1.upToUnderscore) ∧
    ((s.find (.text (before ++ QualName.writeAll entries))).2.2 = .ok (entries.map Prod.fst) ↔
      ∀ e ∈ entries, ['_'] ∉ e.1.texts.dropLast) := by
  have hfound : (s.find (.text (before ++ QualName.writeAll entries))).2.2 =
      .ok (entries.map fun e => e.1.upToUnderscore) := by
    rw [Session.result_find_text, namesOfTokens_eq_ok_iff,
      Token.map_text_scan_writeAll hbefore hbehind hne, List.map_map]
    rfl
  refine ⟨hfound, ?_⟩
  rw [hfound, Except.ok.injEq, List.map_inj_left]
  exact forall₂_congr fun e _ => QualName.upToUnderscore_eq_self_iff

/-- In `(a._.b,_)` the names `a._` and `_` are found. -/
theorem find_writeAll_inner_underscore :
    let p : QualName := ⟨[⟨['a'], rfl⟩, ⟨['_'], rfl⟩, ⟨['b'], rfl⟩], List.cons_ne_nil _ _⟩
    let q : QualName := ⟨[⟨['_'], rfl⟩], List.cons_ne_nil _ _⟩
    let entries := [(p, [',']), (q, [')'])]
    Text.Separates ['('] ∧ (∀ e ∈ entries, Text.Separates e.2) ∧
      (∀ e ∈ entries.dropLast, e.2 ≠ []) ∧
      ((Session.initial none).find (.text (['('] ++ QualName.writeAll entries))).2.2 =
        .ok [p.upToUnderscore, q] ∧
      p.upToUnderscore.text = ['a', '.', '_'] := by
  intro p q entries
  have hbefore : Text.Separates ['('] := by decide +kernel
  have hbehind : ∀ e ∈ entries, Text.Separates e.2 := by decide +kernel
  have hne : ∀ e ∈ entries.dropLast, e.2 ≠ [] := by decide
  have hfound := (find_writeAll (.initial none) ['('] entries hbefore hbehind hne).1
  exact ⟨hbefore, hbehind, hne, hfound, rfl⟩

end DottedNames
