import DottedNames.Command.Request

/-!
# The arguments of a scan

The flags of a scan may stand before its path and behind it, in any order and as often as one likes.
The root level knows none of them and leaves them, with the path, to the scan; there each flag takes
effect where it stands, and the one plain argument is the path. This holds in every release of the
parser.
-/

namespace DottedNames.Command

/-- A flag that changes the report of a scan. -/
inductive ReportFlag where
  /-- Each name once. -/
  | unique
  /-- Output in JSON. -/
  | json
deriving DecidableEq

variable {release : ParserRelease} {v : Verb} {l : CommandLevel} {s : Settings} {path t : Text}
  {ts us : List Text} {as bs : List Argument}

namespace ReportFlag

/-- The option of a flag. -/
def option : ReportFlag → CommandOption
  | .unique => ⟨["--unique".toList], .unique⟩
  | .json => CommandLevel.jsonOption

/-- The flag as it is typed. -/
def text : ReportFlag → Text
  | .unique => "--unique".toList
  | .json => "--json".toList

/-- How the flag is read at the level of the scan. -/
def argument (f : ReportFlag) : Argument := .option f.text f.option f.text none

end ReportFlag

open ReportFlag (text argument)

/-- The settings with what some flags ask for. -/
def Settings.flagged (s : Settings) (flags : List ReportFlag) : Settings :=
  { s with
    unique := s.unique || flags.contains .unique
    json := s.json || flags.contains .json }

/-! ## Reading single arguments -/

theorem Argument.read_of_head? (h : t.head? ≠ some '-') : read l t = .ok (.plain t) := if_pos h

theorem Argument.read_text_scan (f : ReportFlag) : read (.of .scan) f.text = .ok f.argument := by
  cases f <;> rfl

theorem Argument.read_text_root (f : ReportFlag) : read .root f.text = .ok (.unknown f.text) := by
  cases f <;> rfl

theorem Argument.typed_of_mem_candidates {a : Argument} (h : a ∈ candidates l t) :
    a.typed = t := by
  unfold candidates at h
  split at h
  · obtain ⟨f, -, rfl⟩ := List.mem_map.1 h
    rfl
  · obtain ⟨f, -, hf⟩ := List.mem_filterMap.1 h
    split at hf
    · cases hf
      rfl
    · split at hf
      · cases hf
        rfl
      · cases hf

theorem Argument.typed_of_guess {a : Argument} (h : read.guess l t = .ok a) : a.typed = t := by
  unfold read.guess at h
  split at h
  · next b hb =>
    cases h
    exact typed_of_mem_candidates (hb ▸ List.mem_singleton_self _)
  · split at h <;> cases h <;> rfl
  · cases h

/-- An argument that is read is kept as it was typed. -/
theorem Argument.typed_of_read {a : Argument} (h : read l t = .ok a) : a.typed = t := by
  unfold read at h
  split at h
  · cases h
    rfl
  · split at h
    · cases h
      rfl
    · split at h
      · cases h
        rfl
      · split at h
        · split at h
          · cases h
            rfl
          · exact typed_of_guess h
        · exact typed_of_guess h

theorem Argument.readAll_cons (hsep : t ≠ separatorText) {a : Argument} (h : read l t = .ok a) :
    readAll l (t :: ts) = (readAll l ts).map (a :: ·) := by
  rw [readAll, if_neg hsep, h]
  cases readAll l ts <;> rfl

/-- Arguments that are read are kept as they were typed. -/
theorem Argument.map_typed_of_readAll (h : readAll l ts = .ok as) : as.map typed = ts := by
  induction ts generalizing as with
  | nil => cases h; rfl
  | cons t ts ih =>
    unfold readAll at h
    split at h
    · next hsep =>
      cases h
      simp [hsep, typed, Function.comp_def]
    · split at h
      · cases h
      · next a ha =>
        split at h
        · cases h
        · next bs hbs =>
          cases h
          rw [List.map_cons, typed_of_read ha, ih hbs]

/-- The flags in front of other arguments are read as such. -/
theorem Argument.readAll_flags_append {read' : ReportFlag → Argument}
    (h : ∀ f : ReportFlag, read l f.text = .ok (read' f)) (flags : List ReportFlag)
    (ts : List Text) :
    readAll l (flags.map text ++ ts) = (readAll l ts).map (flags.map read' ++ ·) := by
  have hsep : ∀ f : ReportFlag, f.text ≠ separatorText := by
    rintro (_ | _) <;> decide
  induction flags with
  | nil =>
    show readAll l ts = (readAll l ts).map id
    cases readAll l ts <;> rfl
  | cons f flags ih =>
    rw [List.map_cons, List.cons_append, readAll_cons (hsep f) (h f), ih]
    cases readAll l ts <;> rfl

/-- The flags and a path between them are read as such. -/
theorem Argument.readAll_flags_path {read' : ReportFlag → Argument}
    (h : ∀ f : ReportFlag, read l f.text = .ok (read' f)) (hpath : path.head? ≠ some '-')
    (before after : List ReportFlag) :
    readAll l (before.map text ++ path :: after.map text) =
      .ok (before.map read' ++ .plain path :: after.map read') := by
  have hsep : path ≠ separatorText := by
    rintro rfl
    exact hpath rfl
  have hafter := readAll_flags_append h after []
  rw [List.append_nil] at hafter
  rw [readAll_flags_append h, readAll_cons hsep (read_of_head? hpath), hafter]
  simp [readAll, Except.map]

/-! ## Taking arguments -/

/-- An option without a value takes effect where it stands. -/
theorem consume_option {s' : Settings} {o : CommandOption} {flag : Text}
    (hvalue : o.effect.takesValue = false) (h : applyEffect l s o.effect = .ok s') :
    consume release l s (.option t o flag none :: as) = consume release l s' as := by
  rw [consume.eq_def]
  simp only [hvalue, h]
  rfl

/-- The positional takes a plain argument and some of those behind it. -/
theorem consume_plain {s' : Settings} {n : Nat} (hs : s.operands = none)
    (hn : taken l.arity (.plain t :: as) = n + 1)
    (h : applyOperands l s (t :: (as.take n).map Argument.typed) = .ok s') :
    consume release l s (.plain t :: as) = consume release l s' (as.drop n) := by
  have htexts : ((Argument.plain t :: as).take (n + 1)).map Argument.typed =
      t :: (as.take n).map Argument.typed := rfl
  rw [consume.eq_def]
  simp only [hs, hn, Option.isSome_none, Bool.false_eq_true, if_false, htexts, h]
  rfl

/-! ## The root level -/

/-- Everything behind a command belongs to the command, if each argument can be read. -/
theorem parse_word (v : Verb) (h : Argument.readAll .root ts = .ok as) :
    parse release (v.word :: ts) =
      match parseLevel release (.of v) ts with
      | .error stop => .error stop
      | .ok s =>
        if s.leftovers.isEmpty then .ok ⟨false, some (v.job s)⟩
        else .error (.misuse .root (unrecognized s.leftovers)) := by
  have hread : Argument.readAll .root (v.word :: ts) = .ok (.plain v.word :: as) := by
    rw [Argument.readAll_cons (by cases v <;> decide)
      (Argument.read_of_head? (by cases v <;> decide)), h]
    rfl
  have hverb : Verb.ofWord? v.word = some v := by cases v <;> decide
  have hoperands : applyOperands .root {} (v.word :: (as.take as.length).map Argument.typed) =
      .ok { operands := some (v.word :: ts) } := by
    rw [List.take_length, Argument.map_typed_of_readAll h]
    cases v <;> rfl
  have hconsume : consume release .root {} (.plain v.word :: as) =
      .ok { operands := some (v.word :: ts) } := by
    rw [consume_plain rfl rfl hoperands, List.drop_length, consume]
  have hroot :
      parseLevel release .root (v.word :: ts) = .ok { operands := some (v.word :: ts) } := by
    simp only [parseLevel, hread, hconsume]
    rfl
  simp only [parse, readLevels, hroot, hverb]
  cases parseLevel release (.of v) ts <;> rfl

/-! ## The level of the scan -/

/-- The flags take effect, one after the other. -/
theorem consume_flags_append (release : ParserRelease) (s : Settings) (flags : List ReportFlag)
    (as : List Argument) :
    consume release (.of .scan) s (flags.map argument ++ as) =
      consume release (.of .scan) (s.flagged flags) as := by
  induction flags generalizing s with
  | nil => simp [Settings.flagged]
  | cons f flags ih =>
    have hstep : ((s.flagged [f]).flagged flags) = s.flagged (f :: flags) := by
      simp [Settings.flagged, Bool.or_assoc]
    have heffect : applyEffect (.of .scan) s f.option.effect = .ok (s.flagged [f]) := by
      cases f <;> simp [ReportFlag.option, CommandLevel.jsonOption, applyEffect, Settings.flagged]
    have hvalue : f.option.effect.takesValue = false := by cases f <;> rfl
    rw [List.map_cons, List.cons_append, argument, consume_option hvalue heffect, ih, hstep]

/-- A scan whose arguments are read and take effect without anything left over. -/
theorem parse_scan_of_consume (hroot : Argument.readAll .root ts = .ok as)
    (hscan : Argument.readAll (.of .scan) ts = .ok bs)
    (hconsume : consume release (.of .scan) {} bs = .ok s) (hleft : s.leftovers = []) :
    parse release ("scan".toList :: ts) = .ok ⟨false, some (Verb.scan.job s)⟩ := by
  have hlevel : parseLevel release (.of .scan) ts = .ok s := by
    simp only [parseLevel, hscan, hconsume]
    rfl
  rw [show "scan".toList = Verb.scan.word from rfl, parse_word .scan hroot, hlevel]
  simp only [hleft]
  rfl

/-- The request for a scan without a path. -/
theorem parse_scan (flags : List ReportFlag) :
    parse release ("scan".toList :: flags.map text) =
      .ok ⟨false, some (.scan none (flags.contains .unique) (flags.contains .json) none)⟩ := by
  have hroot := Argument.readAll_flags_append Argument.read_text_root flags []
  have hscan := Argument.readAll_flags_append Argument.read_text_scan flags []
  have hconsume := consume_flags_append release {} flags []
  rw [List.append_nil] at hroot hscan
  rw [consume] at hconsume
  rw [parse_scan_of_consume hroot hscan hconsume rfl]
  simp [Verb.job, Settings.flagged]

/-- The request for a scan of a path, with flags in front of the path and behind it. -/
theorem parse_scan_path (hpath : path.head? ≠ some '-') (before after : List ReportFlag) :
    parse release ("scan".toList :: (before.map text ++ path :: after.map text)) =
      .ok ⟨false, some (.scan (some path) ((before ++ after).contains .unique)
        ((before ++ after).contains .json) none)⟩ := by
  have hroot := Argument.readAll_flags_path Argument.read_text_root hpath before after
  have hscan := Argument.readAll_flags_path Argument.read_text_scan hpath before after
  have hsep : path ≠ Argument.separatorText := by
    rintro rfl
    exact hpath rfl
  -- No flag is a separator, so the positional takes the path alone.
  have htaken :
      taken (CommandLevel.of .scan).arity (.plain path :: after.map argument) = 0 + 1 := by
    cases after <;> rfl
  have hoperands : applyOperands (.of .scan) (({} : Settings).flagged before) [path] =
      .ok { ({} : Settings).flagged before with operands := some [path] } := by
    have hvalues : valuesOf (.of .scan) [path] = [path] :=
      List.erase_of_not_mem (by simpa using hsep.symm)
    simp only [applyOperands, hvalues, CommandLevel.choices?]
  let s : Settings := { ({} : Settings).flagged before with operands := some [path] }
  have hconsume :
      consume release (.of .scan) {} (before.map argument ++ .plain path :: after.map argument) =
        .ok (s.flagged after) := by
    have hafter := consume_flags_append release s after []
    rw [List.append_nil, consume] at hafter
    rw [consume_flags_append, consume_plain rfl htaken hoperands, List.drop_zero, hafter]
  rw [parse_scan_of_consume hroot hscan hconsume rfl]
  simp [Verb.job, Settings.flagged, s]

end DottedNames.Command
