import TrustSchema.Proofs.Name.Uri

/-!
Which texts are URIs of names, and of which names. The white space around a text, its scheme and its
authority are set aside, the path is cut at every slash, and each part that is not blank is one
component, or is at fault.
-/

namespace TrustSchema

open Text.Percent

/-- A segment writes a component: its octets, or three periods before it if it is made of
periods. -/
inductive Component.WrittenAs : Component → Text → Prop
  | octets {segment : Text} {octets : Bytes} :
      Escaped segment octets → (∃ b ∈ octets, b ≠ period) → WrittenAs ⟨octets⟩ segment
  | periods {segment : Text} {count : Nat} :
      Escaped segment (List.replicate (count + 3) period) →
      WrittenAs ⟨List.replicate count period⟩ segment

/-- A segment is nothing but one or two periods, escaped or not. -/
def Component.Relative (segment : Text) : Prop :=
  Escaped segment [period] ∨ Escaped segment [period, period]

/-- What is wrong with a segment: an escape without its two digits, or a relative path. -/
inductive Component.Refused : Text → NameError → Prop
  | escape {segment : Text} : ¬Complete segment → Refused segment (.invalidEscape segment)
  | relative {segment : Text} : Relative segment → Refused segment (.illegalComponent segment)

namespace Name

/-- What is left of a URI without scheme and authority. -/
inductive PathOf : Text → Text → Prop
  | plain {uri : Text} : ¬['n', 'd', 'n', ':'] <+: uri → PathOf uri uri
  | scheme {path : Text} : ¬['/', '/'] <+: path → PathOf (['n', 'd', 'n', ':'] ++ path) path
  | authority {authority path : Text} : '/' ∉ authority → (∀ c ∈ path.head?, c = '/') →
      PathOf (['n', 'd', 'n', ':'] ++ (['/', '/'] ++ (authority ++ path))) path

/-- The segments of a URI: the parts of its path between slashes, each without the white space
around it, and none where there is nothing else. -/
def SegmentsOf (uri : Text) (segments : List Text) : Prop :=
  ∃ core path parts trimmed, Text.Trims uri core ∧ PathOf core path ∧ Text.Parts '/' path parts ∧
    List.Forall₂ Text.Trims parts trimmed ∧ segments = trimmed.filter (· ≠ [])

theorem pathOf_iff (uri path : Text) : PathOf uri path ↔ path = uriPath uri := by
  constructor
  · rintro (foreign | single | ⟨whole, slash⟩)
    · rw [uriPath, (Text.isPrefixOf?_eq_none_iff _ _).mpr foreign]
    · rw [uriPath, (Text.isPrefixOf?_eq_some_iff _ _ _).mpr rfl]
      simp only [(Text.isPrefixOf?_eq_none_iff _ _).mpr single]
    · have outside : ∀ c ∈ _, decide (c ≠ '/') = true := fun c member =>
        decide_eq_true (ne_of_mem_of_not_mem member whole)
      rw [uriPath, (Text.isPrefixOf?_eq_some_iff _ _ _).mpr rfl]
      simp only [(Text.isPrefixOf?_eq_some_iff _ _ _).mpr rfl]
      rw [List.dropWhile_append_of_pos outside]
      cases path with
      | nil => rfl
      | cons c path => rw [List.dropWhile_cons_of_neg (by simp [slash c rfl])]
  · rintro rfl
    rw [uriPath]
    split
    next foreign => exact .plain ((Text.isPrefixOf?_eq_none_iff _ _).mp foreign)
    next rest scheme =>
      obtain rfl := (Text.isPrefixOf?_eq_some_iff _ _ _).mp scheme
      split
      next single => exact .scheme ((Text.isPrefixOf?_eq_none_iff _ _).mp single)
      next rest slashes =>
        obtain rfl := (Text.isPrefixOf?_eq_some_iff _ _ _).mp slashes
        -- The authority is what comes before the first slash of the rest.
        have cut := List.takeWhile_append_dropWhile (p := (decide <| · ≠ '/')) (l := rest)
        have slash : ∀ c ∈ (rest.dropWhile (· ≠ '/')).head?, c = '/' :=
          fun _ => Text.eq_of_head?_dropWhile_ne
        have written := PathOf.authority (Text.not_mem_takeWhile_ne '/' rest) slash
        rwa [cut] at written

theorem forall₂_trims_iff (parts trimmed : List Text) :
    List.Forall₂ Text.Trims parts trimmed ↔ trimmed = parts.map Text.trim := by
  have same : Text.Trims = fun part core => Text.trim part = core := by
    funext part core
    rw [Text.trims_iff, eq_comm (a := core)]
  rw [same, ← List.forall₂_map_left_iff, List.forall₂_eq_eq_eq, eq_comm]

theorem segmentsOf_iff (uri : Text) (written : List Text) :
    SegmentsOf uri written ↔ written = (segments (uriPath (Text.trim uri))).map Text.trim := by
  -- Passing over blank parts before trimming or over empty ones after it is the same.
  have solid (parts : List Text) : (parts.map Text.trim).filter (· ≠ []) =
      (parts.filter fun part => !(Text.trim part).isEmpty).map Text.trim := by
    rw [List.filter_map]
    congr 2
    funext part
    change decide (Text.trim part ≠ []) = !(Text.trim part).isEmpty
    cases Text.trim part <;> rfl
  simp only [SegmentsOf, Text.trims_iff, pathOf_iff, Text.parts_iff, forall₂_trims_iff]
  constructor
  · rintro ⟨_, _, _, _, rfl, rfl, rfl, rfl, rfl⟩
    exact solid _
  · rintro rfl
    exact ⟨_, _, _, _, rfl, rfl, rfl, rfl, (solid _).symm⟩

end Name

namespace Component

theorem allPeriods_iff (bytes : Bytes) :
    allPeriods bytes = true ↔ bytes = List.replicate bytes.length period := by
  simp [allPeriods, List.eq_replicate_iff]

theorem allPeriods_replicate (count : Nat) : allPeriods (List.replicate count period) = true := by
  simp [allPeriods]

theorem ofUri?_ok_iff (segment : Text) (c : Component) :
    ofUri? segment = .ok c ↔ c.WrittenAs (Text.trim segment) := by
  constructor
  · intro read
    simp only [ofUri?] at read
    split at read
    next => cases read
    next bytes decoded =>
      have escaped := (decode?_eq_some_iff _ _).mp decoded
      split at read
      next periods =>
        split at read
        next => cases read
        next long =>
          cases read
          -- The three periods in front only tell the component from a relative path.
          obtain ⟨count, length⟩ := Nat.exists_eq_add_of_le' (Nat.le_of_not_lt long)
          rw [(allPeriods_iff bytes).mp periods, length] at escaped ⊢
          rw [List.drop_replicate]
          exact .periods escaped
      next other =>
        cases read
        exact .octets escaped (by simpa [allPeriods] using other)
  · rintro (⟨escaped, other⟩ | escaped)
    next octets =>
      have plain : ¬allPeriods octets = true := by simpa [allPeriods] using other
      simp only [ofUri?, (decode?_eq_some_iff _ _).mpr escaped, if_neg plain]
    next count =>
      have long : ¬(List.replicate (count + 3) period).length < 3 := by simp
      simp only [ofUri?, (decode?_eq_some_iff _ _).mpr escaped, allPeriods_replicate, if_true,
        if_neg long, List.drop_replicate, Nat.add_sub_cancel]

theorem ofUri?_error_iff {segment : Text} (solid : Text.trim segment ≠ []) (e : NameError) :
    ofUri? segment = .error e ↔ Refused (Text.trim segment) e := by
  constructor
  · intro failed
    simp only [ofUri?] at failed
    split at failed
    next undecoded =>
      cases failed
      exact .escape ((decode?_eq_none_iff _).mp undecoded)
    next bytes decoded =>
      have escaped := (decode?_eq_some_iff _ _).mp decoded
      split at failed
      next periods =>
        split at failed
        next short =>
          cases failed
          rw [(allPeriods_iff bytes).mp periods] at escaped
          -- No octets at all are written by no characters, and the segment has some.
          have some : bytes.length ≠ 0 := by
            intro none
            rw [none] at escaped
            exact solid escaped.eq_nil
          have few : bytes.length = 1 ∨ bytes.length = 2 := by omega
          rcases few with one | two
          · rw [one] at escaped
            exact .relative (.inl escaped)
          · rw [two] at escaped
            exact .relative (.inr escaped)
        next => cases failed
      next => cases failed
  · rintro (incomplete | relative)
    · simp only [ofUri?, (decode?_eq_none_iff _).mpr incomplete]
    · rcases relative with escaped | escaped
      all_goals
        simp only [ofUri?, (decode?_eq_some_iff _ _).mpr escaped]
        rfl

/-- A segment is read unless something is wrong with it. -/
theorem exists_ofUri?_iff {segment : Text} (solid : Text.trim segment ≠ []) :
    (∃ c, ofUri? segment = .ok c) ↔
      Complete (Text.trim segment) ∧ ¬Relative (Text.trim segment) := by
  constructor
  · rintro ⟨c, read⟩
    constructor
    · apply Classical.byContradiction
      intro incomplete
      cases read.symm.trans ((ofUri?_error_iff solid _).mpr (.escape incomplete))
    · intro relative
      cases read.symm.trans ((ofUri?_error_iff solid _).mpr (.relative relative))
  · rintro ⟨complete, named⟩
    cases read : ofUri? segment with
    | ok c => exact ⟨c, rfl⟩
    | error e =>
      rcases (ofUri?_error_iff solid e).mp read with incomplete | relative
      · exact absurd complete incomplete
      · exact absurd relative named

end Component

namespace Name

theorem trim_ne_nil_of_mem_segments {path segment : Text} (member : segment ∈ segments path) :
    Text.trim segment ≠ [] := by
  simpa [segments] using (List.mem_filter.mp member).2

theorem ofUri?_eq_map (uri : Text) :
    ofUri? uri = ((segments (uriPath (Text.trim uri))).mapM Component.ofUri?).map Name.mk := by
  rw [ofUri?]
  cases (segments (uriPath (Text.trim uri))).mapM Component.ofUri? <;> rfl

theorem ofUri?_ok_iff (uri : Text) (n : Name) :
    ofUri? uri = .ok n ↔ List.Forall₂ (fun s c => Component.WrittenAs c s)
      ((segments (uriPath (Text.trim uri))).map Text.trim) n.components := by
  obtain ⟨components⟩ := n
  rw [ofUri?_eq_map, Text.map_ok_iff]
  simp only [mk.injEq, exists_eq_right, Text.mapM_ok_iff, List.forall₂_map_left_iff,
    Component.ofUri?_ok_iff]

/-- A URI is read exactly if each of its segments is. -/
theorem exists_ofUri?_iff (uri : Text) :
    (∃ n, ofUri? uri = .ok n) ↔
      ∀ s ∈ segments (uriPath (Text.trim uri)), ∃ c, Component.ofUri? s = .ok c := by
  simp only [← Text.exists_mapM_ok_iff, ofUri?_eq_map, Text.map_ok_iff]
  rw [exists_comm]
  simp

/-- The leftmost segment at fault decides what is wrong with a URI. -/
theorem ofUri?_error_iff (uri : Text) (e : NameError) :
    ofUri? uri = .error e ↔
      ∃ before bad after, (segments (uriPath (Text.trim uri))).map Text.trim =
          before ++ bad :: after ∧
        (∀ s ∈ before, ∃ c, Component.WrittenAs c s) ∧ Component.Refused bad e := by
  rw [ofUri?_eq_map, Text.map_error_iff, Text.mapM_error_iff]
  simp only [Component.ofUri?_ok_iff]
  constructor
  · rintro ⟨before, bad, after, whole, good, failed⟩
    have solid : Text.trim bad ≠ [] :=
      trim_ne_nil_of_mem_segments (whole ▸ List.mem_append_cons_self)
    refine ⟨before.map Text.trim, Text.trim bad, after.map Text.trim, ?_, ?_, ?_⟩
    · rw [whole, List.map_append, List.map_cons]
    · simpa only [List.forall_mem_map] using good
    · exact (Component.ofUri?_error_iff solid e).mp failed
  · rintro ⟨left, core, right, whole, good, refused⟩
    -- The segments of the path are cut where their trimmed forms are.
    obtain ⟨before, later, split, rfl, rest⟩ := List.map_eq_append_iff.mp whole
    obtain ⟨bad, after, rfl, rfl, rfl⟩ := List.map_eq_cons_iff.mp rest
    have solid : Text.trim bad ≠ [] :=
      trim_ne_nil_of_mem_segments (split ▸ List.mem_append_cons_self)
    refine ⟨before, bad, after, split, ?_, (Component.ofUri?_error_iff solid e).mpr refused⟩
    simpa only [List.forall_mem_map] using good

theorem ofUri?_grammar (uri : Text) :
    ∃ segments, (∀ others, SegmentsOf uri others ↔ others = segments) ∧
      (∀ n, ofUri? uri = .ok n ↔
        List.Forall₂ (fun s c => Component.WrittenAs c s) segments n.components) ∧
      ((∃ n, ofUri? uri = .ok n) ↔ ∀ s ∈ segments, Complete s ∧ ¬Component.Relative s) ∧
      ∀ e, ofUri? uri = .error e ↔
        ∃ before bad after, segments = before ++ bad :: after ∧
          (∀ s ∈ before, ∃ c, Component.WrittenAs c s) ∧ Component.Refused bad e := by
  refine ⟨_, segmentsOf_iff uri, ofUri?_ok_iff uri, ?_, ofUri?_error_iff uri⟩
  rw [exists_ofUri?_iff, List.forall_mem_map]
  refine forall₂_congr fun s member => ?_
  exact Component.exists_ofUri?_iff (trim_ne_nil_of_mem_segments member)

end Name

end TrustSchema
