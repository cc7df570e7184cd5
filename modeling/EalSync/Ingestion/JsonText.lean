import EalSync.Ingestion.Content

/-! The text fragments of a JSON document: what collect_json_text collects, where it stops, and how
far its output grows on the way. -/
namespace EalSync.Ingestion

mutual

/-- The keys and the strings in document order, each key before those of its value. -/
def fragments : Json → List Str
  | .string text => [text]
  | .array items => fragmentsOfItems items
  | .object members => fragmentsOfMembers members
  | .null | .bool _ | .number _ => []

def fragmentsOfItems : List Json → List Str
  | [] => []
  | item :: rest => fragments item ++ fragmentsOfItems rest

def fragmentsOfMembers : List (Str × Json) → List Str
  | [] => []
  | (key, value) :: rest => key :: fragments value ++ fragmentsOfMembers rest

end

/-- A node of a document with its depth and the number of fragments before it. -/
structure JsonNode where
  depth : Nat
  before : Nat
  value : Json

mutual

/-- The nodes in document order, from one at this depth with so many fragments before it. -/
def nodes (depth before : Nat) (value : Json) : List JsonNode :=
  ⟨depth, before, value⟩ :: match value with
    | .array items => nodesOfItems (depth + 1) before items
    | .object members => nodesOfMembers (depth + 1) before members
    | .null | .bool _ | .number _ | .string _ => []

def nodesOfItems (depth before : Nat) : List Json → List JsonNode
  | [] => []
  | item :: rest =>
    nodes depth before item ++ nodesOfItems depth (before + (fragments item).length) rest

def nodesOfMembers (depth before : Nat) : List (Str × Json) → List JsonNode
  | [] => []
  | (_, value) :: rest =>
    nodes depth (before + 1) value ++
      nodesOfMembers depth (before + 1 + (fragments value).length) rest

end

/-- The check on entry to a node lets it through. -/
def JsonNode.Fits (node : JsonNode) : Prop := node.depth ≤ 64 ∧ node.before < 20000

theorem collectJsonText_entered {value : Json} {depth : Nat} {output : List Str}
    (fits : depth ≤ 64 ∧ output.length < 20000) :
    collectJsonText value depth output = match value with
      | .string text => .ok (output ++ [text])
      | .array items => collectItems items depth output
      | .object members => collectMembers members depth output
      | .null | .bool _ | .number _ => .ok output := by
  have shallow : ¬depth > 64 := by omega
  have short : ¬output.length ≥ 20000 := by omega
  have step := collectJsonText.eq_def value depth output
  rw [if_neg shallow, if_neg short] at step
  cases value <;> exact step

theorem collectJsonText_refused {value : Json} {depth : Nat} {output : List Str}
    (refused : ¬(depth ≤ 64 ∧ output.length < 20000)) (out : List Str) :
    collectJsonText value depth output ≠ .ok out := by
  intro ok
  rw [collectJsonText.eq_def] at ok
  split at ok
  · cases ok
  · split at ok
    · cases ok
    · omega

mutual

/-- Every node is let through, or the traversal fails. -/
theorem collectJsonText_ok (value : Json) (depth : Nat) (output out : List Str) :
    collectJsonText value depth output = .ok out ↔
      (∀ node ∈ nodes depth output.length value, node.Fits) ∧ out = output ++ fragments value := by
  by_cases fits : depth ≤ 64 ∧ output.length < 20000
  · have root : JsonNode.Fits ⟨depth, output.length, value⟩ := fits
    rw [collectJsonText_entered fits, nodes.eq_def, List.forall_mem_cons]
    cases value with
    | string text => simp [root, fragments, eq_comm]
    | array items => simpa [root, fragments] using collectItems_ok items depth output out
    | object members => simpa [root, fragments] using collectMembers_ok members depth output out
    | null => simp [root, fragments, eq_comm]
    | bool b => simp [root, fragments, eq_comm]
    | number n => simp [root, fragments, eq_comm]
  · constructor
    · exact fun ok => absurd ok (collectJsonText_refused fits out)
    · intro ⟨through, _⟩
      rw [nodes.eq_def, List.forall_mem_cons] at through
      exact absurd through.1 fits

theorem collectItems_ok (items : List Json) (depth : Nat) (output out : List Str) :
    collectItems items depth output = .ok out ↔
      (∀ node ∈ nodesOfItems (depth + 1) output.length items, node.Fits) ∧
        out = output ++ fragmentsOfItems items := by
  match items with
  | [] => simp [collectItems, nodesOfItems, fragmentsOfItems, eq_comm]
  | item :: rest =>
    have first := collectJsonText_ok item (depth + 1) output
    rw [collectItems, nodesOfItems, List.forall_mem_append, fragmentsOfItems, and_assoc]
    cases entered : collectJsonText item (depth + 1) output with
    | error e =>
      have none : ¬∀ node ∈ nodes (depth + 1) output.length item, node.Fits := by
        intro through
        have ok := (first _).mpr ⟨through, rfl⟩
        rw [entered] at ok
        cases ok
      simp [none]
    | ok more =>
      obtain ⟨through, rfl⟩ := (first more).mp entered
      have later := collectItems_ok rest depth (output ++ fragments item) out
      rw [List.length_append, List.append_assoc] at later
      rw [and_iff_right through]
      exact later

theorem collectMembers_ok (members : List (Str × Json)) (depth : Nat) (output out : List Str) :
    collectMembers members depth output = .ok out ↔
      (∀ node ∈ nodesOfMembers (depth + 1) output.length members, node.Fits) ∧
        out = output ++ fragmentsOfMembers members := by
  match members with
  | [] => simp [collectMembers, nodesOfMembers, fragmentsOfMembers, eq_comm]
  | (key, value) :: rest =>
    have first := collectJsonText_ok value (depth + 1) (output ++ [key])
    rw [List.length_append, List.length_singleton] at first
    rw [collectMembers, nodesOfMembers, List.forall_mem_append, fragmentsOfMembers, and_assoc]
    cases entered : collectJsonText value (depth + 1) (output ++ [key]) with
    | error e =>
      have none : ¬∀ node ∈ nodes (depth + 1) (output.length + 1) value, node.Fits := by
        intro through
        have ok := (first _).mpr ⟨through, rfl⟩
        rw [entered] at ok
        cases ok
      simp [none]
    | ok more =>
      obtain ⟨through, rfl⟩ := (first more).mp entered
      have later := collectMembers_ok rest depth (output ++ [key] ++ fragments value) out
      have whole : output ++ [key] ++ fragments value ++ fragmentsOfMembers rest =
          output ++ (key :: fragments value ++ fragmentsOfMembers rest) := by simp
      rw [List.length_append, List.length_append, List.length_singleton, whole] at later
      rw [and_iff_right through]
      exact later

end

mutual

/-- No more fragments are before a node than the document has. -/
theorem before_le (value : Json) (depth before : Nat) :
    ∀ node ∈ nodes depth before value, node.before ≤ before + (fragments value).length := by
  rw [nodes.eq_def, List.forall_mem_cons]
  refine ⟨Nat.le_add_right _ _, ?_⟩
  cases value with
  | array items => simpa [fragments] using before_le_items items (depth + 1) before
  | object members => simpa [fragments] using before_le_members members (depth + 1) before
  | null => simp
  | bool b => simp
  | number n => simp
  | string text => simp

theorem before_le_items (items : List Json) (depth before : Nat) :
    ∀ node ∈ nodesOfItems depth before items,
      node.before ≤ before + (fragmentsOfItems items).length := by
  match items with
  | [] => simp [nodesOfItems]
  | item :: rest =>
    rw [nodesOfItems, List.forall_mem_append, fragmentsOfItems, List.length_append, ← Nat.add_assoc]
    constructor
    · exact fun node member => (before_le item depth before node member).trans (Nat.le_add_right _ _)
    · exact before_le_items rest depth (before + (fragments item).length)

theorem before_le_members (members : List (Str × Json)) (depth before : Nat) :
    ∀ node ∈ nodesOfMembers depth before members,
      node.before ≤ before + (fragmentsOfMembers members).length := by
  match members with
  | [] => simp [nodesOfMembers]
  | (key, value) :: rest =>
    have size : before + (fragmentsOfMembers ((key, value) :: rest)).length =
        before + 1 + (fragments value).length + (fragmentsOfMembers rest).length := by
      rw [fragmentsOfMembers, List.length_append, List.length_cons]
      omega
    rw [nodesOfMembers, List.forall_mem_append, size]
    constructor
    · exact fun node member =>
        (before_le value depth (before + 1) node member).trans (Nat.le_add_right _ _)
    · exact before_le_members rest depth (before + 1 + (fragments value).length)

end

mutual

/-- A traversal that succeeds ends below the limit or at it. -/
theorem length_le_of_ok {value : Json} {depth : Nat} {output out : List Str}
    (ok : collectJsonText value depth output = .ok out) : out.length ≤ 20000 := by
  by_cases fits : depth ≤ 64 ∧ output.length < 20000
  · rw [collectJsonText_entered fits] at ok
    cases value with
    | array items => exact length_le_of_items (Nat.le_of_lt fits.2) ok
    | object members => exact length_le_of_members (Nat.le_of_lt fits.2) ok
    | string text =>
      cases ok
      rw [List.length_append, List.length_singleton]
      omega
    | null => cases ok; omega
    | bool b => cases ok; omega
    | number n => cases ok; omega
  · exact absurd ok (collectJsonText_refused fits out)

theorem length_le_of_items {items : List Json} {depth : Nat} {output out : List Str}
    (short : output.length ≤ 20000) (ok : collectItems items depth output = .ok out) :
    out.length ≤ 20000 := by
  match items with
  | [] =>
    cases ok
    exact short
  | item :: rest =>
    rw [collectItems] at ok
    split at ok
    · cases ok
    · rename_i entered
      exact length_le_of_items (length_le_of_ok entered) ok

theorem length_le_of_members {members : List (Str × Json)} {depth : Nat} {output out : List Str}
    (short : output.length ≤ 20000) (ok : collectMembers members depth output = .ok out) :
    out.length ≤ 20000 := by
  match members with
  | [] =>
    cases ok
    exact short
  | (key, value) :: rest =>
    rw [collectMembers] at ok
    split at ok
    · cases ok
    · rename_i entered
      exact length_le_of_members (length_le_of_ok entered) ok

end

mutual

/-- The output after each push of the traversal, up to its end or its error. -/
def pushes (value : Json) (depth : Nat) (output : List Str) : List (List Str) :=
  if depth > 64 then []
  else if output.length ≥ 20000 then []
  else match value with
    | .string text => [output ++ [text]]
    | .array items => pushesOfItems items depth output
    | .object members => pushesOfMembers members depth output
    | .null | .bool _ | .number _ => []

def pushesOfItems (items : List Json) (depth : Nat) (output : List Str) : List (List Str) :=
  match items with
  | [] => []
  | item :: rest =>
    pushes item (depth + 1) output ++
      match collectJsonText item (depth + 1) output with
      | .error _ => []
      | .ok output => pushesOfItems rest depth output

def pushesOfMembers (members : List (Str × Json)) (depth : Nat) (output : List Str) : List (List Str) :=
  match members with
  | [] => []
  | (key, value) :: rest =>
    (output ++ [key]) :: pushes value (depth + 1) (output ++ [key]) ++
      match collectJsonText value (depth + 1) (output ++ [key]) with
      | .error _ => []
      | .ok output => pushesOfMembers rest depth output

end

/-- The output at every moment of collect_json_text on a document. -/
def moments (value : Json) : List (List Str) := [] :: pushes value 0 []

/-- One traversal goes on from the last output of the one before. -/
theorem last_continued {α : Type} {first middle last : α} {front back : List α}
    (before : (first :: front).getLast? = some middle) (after : (middle :: back).getLast? = some last) :
    (first :: (front ++ back)).getLast? = some last := by
  cases back with
  | nil =>
    cases after
    rwa [List.append_nil]
  | cons next rest =>
    rw [← List.cons_append, List.getLast?_append_cons, ← after, List.getLast?_cons_cons]

theorem pushes_entered {value : Json} {depth : Nat} {output : List Str}
    (fits : depth ≤ 64 ∧ output.length < 20000) :
    pushes value depth output = match value with
      | .string text => [output ++ [text]]
      | .array items => pushesOfItems items depth output
      | .object members => pushesOfMembers members depth output
      | .null | .bool _ | .number _ => [] := by
  have shallow : ¬depth > 64 := by omega
  have short : ¬output.length ≥ 20000 := by omega
  rw [pushes.eq_def, if_neg shallow, if_neg short]

theorem pushes_refused {value : Json} {depth : Nat} {output : List Str}
    (refused : ¬(depth ≤ 64 ∧ output.length < 20000)) : pushes value depth output = [] := by
  rw [pushes.eq_def]
  split
  · rfl
  · split
    · rfl
    · omega

mutual

/-- A key may be pushed at the limit, once: its value is refused then. -/
theorem pushes_le (value : Json) (depth : Nat) (output : List Str) :
    ∀ now ∈ pushes value depth output, now.length ≤ 20001 := by
  by_cases fits : depth ≤ 64 ∧ output.length < 20000
  · have short := Nat.le_of_lt fits.2
    rw [pushes_entered fits]
    cases value with
    | array items => exact pushesOfItems_le items depth output
    | object members => exact pushesOfMembers_le members depth output short
    | string text =>
      rw [List.forall_mem_singleton, List.length_append, List.length_singleton]
      omega
    | null => simp
    | bool b => simp
    | number n => simp
  · simp [pushes_refused fits]

theorem pushesOfItems_le (items : List Json) (depth : Nat) (output : List Str) :
    ∀ now ∈ pushesOfItems items depth output, now.length ≤ 20001 := by
  match items with
  | [] => simp [pushesOfItems]
  | item :: rest =>
    rw [pushesOfItems, List.forall_mem_append]
    refine ⟨pushes_le item (depth + 1) output, ?_⟩
    split
    · simp
    · exact pushesOfItems_le rest depth _

theorem pushesOfMembers_le (members : List (Str × Json)) (depth : Nat) (output : List Str)
    (short : output.length ≤ 20000) :
    ∀ now ∈ pushesOfMembers members depth output, now.length ≤ 20001 := by
  match members with
  | [] => simp [pushesOfMembers]
  | (key, value) :: rest =>
    rw [pushesOfMembers, List.cons_append, List.forall_mem_cons, List.forall_mem_append,
      List.length_append, List.length_singleton]
    refine ⟨by omega, pushes_le value (depth + 1) (output ++ [key]), ?_⟩
    split
    · simp
    · rename_i entered
      exact pushesOfMembers_le rest depth _ (length_le_of_ok entered)

end

mutual

/-- The output only grows. -/
theorem pushes_le_of_ok {value : Json} {depth : Nat} {output out : List Str}
    (ok : collectJsonText value depth output = .ok out) :
    ∀ now ∈ pushes value depth output, now.length ≤ out.length := by
  by_cases fits : depth ≤ 64 ∧ output.length < 20000
  · rw [collectJsonText_entered fits] at ok
    rw [pushes_entered fits]
    cases value with
    | array items => exact pushesOfItems_le_of_ok ok
    | object members => exact pushesOfMembers_le_of_ok ok
    | string text =>
      cases ok
      simp
    | null => simp
    | bool b => simp
    | number n => simp
  · exact absurd ok (collectJsonText_refused fits out)

theorem pushesOfItems_le_of_ok {items : List Json} {depth : Nat} {output out : List Str}
    (ok : collectItems items depth output = .ok out) :
    ∀ now ∈ pushesOfItems items depth output, now.length ≤ out.length := by
  match items with
  | [] => simp [pushesOfItems]
  | item :: rest =>
    rw [collectItems] at ok
    rw [pushesOfItems, List.forall_mem_append]
    cases entered : collectJsonText item (depth + 1) output with
    | error e =>
      rw [entered] at ok
      cases ok
    | ok more =>
      rw [entered] at ok
      have later : out = more ++ fragmentsOfItems rest := ((collectItems_ok rest depth more out).mp ok).2
      have grown : more.length ≤ out.length := by
        rw [later, List.length_append]
        exact Nat.le_add_right _ _
      refine ⟨fun now member => (pushes_le_of_ok entered now member).trans grown, ?_⟩
      exact pushesOfItems_le_of_ok ok

theorem pushesOfMembers_le_of_ok {members : List (Str × Json)} {depth : Nat} {output out : List Str}
    (ok : collectMembers members depth output = .ok out) :
    ∀ now ∈ pushesOfMembers members depth output, now.length ≤ out.length := by
  match members with
  | [] => simp [pushesOfMembers]
  | (key, value) :: rest =>
    rw [collectMembers] at ok
    rw [pushesOfMembers, List.cons_append, List.forall_mem_cons, List.forall_mem_append]
    cases entered : collectJsonText value (depth + 1) (output ++ [key]) with
    | error e =>
      rw [entered] at ok
      cases ok
    | ok more =>
      rw [entered] at ok
      have later := ((collectMembers_ok rest depth more out).mp ok).2
      have before := ((collectJsonText_ok value (depth + 1) (output ++ [key]) more).mp entered).2
      have grown : more.length ≤ out.length := by
        rw [later, List.length_append]
        exact Nat.le_add_right _ _
      have pushed : (output ++ [key]).length ≤ more.length := by
        rw [before]
        exact (List.prefix_append _ _).length_le
      refine ⟨pushed.trans grown, fun now member => (pushes_le_of_ok entered now member).trans grown, ?_⟩
      exact pushesOfMembers_le_of_ok ok

end

mutual

/-- What is returned is the output after the last push. -/
theorem pushes_last {value : Json} {depth : Nat} {output out : List Str}
    (ok : collectJsonText value depth output = .ok out) :
    (output :: pushes value depth output).getLast? = some out := by
  by_cases fits : depth ≤ 64 ∧ output.length < 20000
  · rw [collectJsonText_entered fits] at ok
    rw [pushes_entered fits]
    cases value with
    | array items => exact pushesOfItems_last ok
    | object members => exact pushesOfMembers_last ok
    | string text => cases ok; rfl
    | null => cases ok; rfl
    | bool b => cases ok; rfl
    | number n => cases ok; rfl
  · exact absurd ok (collectJsonText_refused fits out)

theorem pushesOfItems_last {items : List Json} {depth : Nat} {output out : List Str}
    (ok : collectItems items depth output = .ok out) :
    (output :: pushesOfItems items depth output).getLast? = some out := by
  match items with
  | [] =>
    cases ok
    rfl
  | item :: rest =>
    rw [collectItems] at ok
    rw [pushesOfItems]
    cases entered : collectJsonText item (depth + 1) output with
    | error e =>
      rw [entered] at ok
      cases ok
    | ok more =>
      rw [entered] at ok
      exact last_continued (pushes_last entered) (pushesOfItems_last ok)

theorem pushesOfMembers_last {members : List (Str × Json)} {depth : Nat} {output out : List Str}
    (ok : collectMembers members depth output = .ok out) :
    (output :: pushesOfMembers members depth output).getLast? = some out := by
  match members with
  | [] =>
    cases ok
    rfl
  | (key, value) :: rest =>
    rw [collectMembers] at ok
    rw [pushesOfMembers, List.cons_append, List.getLast?_cons_cons]
    cases entered : collectJsonText value (depth + 1) (output ++ [key]) with
    | error e =>
      rw [entered] at ok
      cases ok
    | ok more =>
      rw [entered] at ok
      exact last_continued (pushes_last entered) (pushesOfMembers_last ok)

end

/-- A traversal that succeeds has collected the fragments in document order, of a document that is
not too deep, and was never over the limit. One that fails was over it by one at most. -/
theorem collectJsonText_bounded (value : Json) :
    (∀ out, collectJsonText value 0 [] = .ok out →
      out = fragments value ∧ (moments value).getLast? = some out ∧
        (∀ node ∈ nodes 0 0 value, node.depth ≤ 64) ∧ ∀ now ∈ moments value, now.length ≤ 20000) ∧
      ∀ now ∈ moments value, now.length ≤ 20001 := by
  constructor
  · intro out ok
    obtain ⟨through, same⟩ := (collectJsonText_ok value 0 [] out).mp ok
    have short := length_le_of_ok ok
    refine ⟨same, pushes_last ok, fun node member => (through node member).1, ?_⟩
    rw [moments, List.forall_mem_cons]
    exact ⟨Nat.zero_le _, fun now member => (pushes_le_of_ok ok now member).trans short⟩
  · rw [moments, List.forall_mem_cons]
    exact ⟨Nat.zero_le _, pushes_le value 0 []⟩

section

variable (text : Str) {n depth : Nat} {output : List Str} (shallow : depth < 64)
  (room : output.length + n ≤ 20000) (rest : List Json)

include shallow room

/-- Strings at the front of an array are collected one after the other. -/
theorem collectItems_strings :
    collectItems (List.replicate n (.string text) ++ rest) depth output =
      collectItems rest depth (output ++ List.replicate n text) := by
  induction n generalizing output with
  | zero => simp
  | succ n ih =>
    have fits : depth + 1 ≤ 64 ∧ output.length < 20000 := by omega
    have later := @ih (output ++ [text]) (by rw [List.length_append, List.length_singleton]; omega)
    rw [List.replicate_succ, List.cons_append, collectItems, collectJsonText_entered fits]
    rw [List.append_assoc, List.singleton_append, ← List.replicate_succ] at later
    exact later

theorem mem_pushesOfItems_strings {now : List Str}
    (member : now ∈ pushesOfItems rest depth (output ++ List.replicate n text)) :
    now ∈ pushesOfItems (List.replicate n (.string text) ++ rest) depth output := by
  induction n generalizing output with
  | zero => simpa using member
  | succ n ih =>
    have fits : depth + 1 ≤ 64 ∧ output.length < 20000 := by omega
    have later := @ih (output ++ [text]) (by rw [List.length_append, List.length_singleton]; omega)
    rw [List.append_assoc, List.singleton_append, ← List.replicate_succ] at later
    rw [List.replicate_succ, List.cons_append, pushesOfItems, collectJsonText_entered fits]
    exact List.mem_append_right _ (later member)

end

/-- The second key of an object that begins two fragments below the limit. -/
theorem second_key_pushed (first second text : Str) {output : List Str} (size : output.length = 19998) :
    output ++ [first] ++ [text] ++ [second] ∈
      pushesOfItems [.object [(first, .string text), (second, .null)]] 0 output := by
  have entered : (0 + 1 ≤ 64) ∧ output.length < 20000 := by omega
  have inside : (0 + 1 + 1 ≤ 64) ∧ (output ++ [first]).length < 20000 := by
    rw [List.length_append, List.length_singleton]
    omega
  have last : output ++ [first] ++ [text] ++ [second] ∈
      pushesOfMembers [(second, .null)] (0 + 1) (output ++ [first] ++ [text]) := by
    rw [pushesOfMembers]
    simp
  rw [pushesOfItems, pushes_entered entered]
  refine List.mem_append_left _ ?_
  change _ ∈ pushesOfMembers [(first, .string text), (second, .null)] (0 + 1) output
  rw [pushesOfMembers, collectJsonText_entered inside]
  exact List.mem_append_right _ last

/-- An array of strings, and an object two fragments below the limit. -/
def crowdedDocument : Json :=
  .array (List.replicate 19998 (.string ['x']) ++
    [.object [("a".toList, .string "b".toList), ("c".toList, .null)]])

theorem moments_crowdedDocument : ∃ now ∈ moments crowdedDocument, ¬now.length ≤ 20000 := by
  have fits : 0 ≤ 64 ∧ ([] : List Str).length < 20000 := by decide
  have room : ([] : List Str).length + 19998 ≤ 20000 := by decide
  have size : ([] ++ List.replicate 19998 ['x']).length = 19998 := by
    rw [List.nil_append, List.length_replicate]
  have pushed := second_key_pushed "a".toList "c".toList "b".toList size
  have reached := mem_pushesOfItems_strings ['x'] (by decide) room _ pushed
  have whole : pushes crowdedDocument 0 [] = pushesOfItems _ 0 [] := pushes_entered fits
  rw [← whole] at reached
  refine ⟨_, List.mem_cons_of_mem _ reached, ?_⟩
  rw [List.length_append, List.length_append, List.length_append, size]
  decide

/-- A document is refused for a node that is too deep, or that comes after too many fragments. -/
theorem collectJsonText_error (value : Json) :
    (∃ e, collectJsonText value 0 [] = .error e) ↔
      (∃ node ∈ nodes 0 0 value, 64 < node.depth) ∨ ∃ node ∈ nodes 0 0 value, 20000 ≤ node.before := by
  have accepted := collectJsonText_ok value 0 []
  constructor
  · rintro ⟨e, refused⟩
    by_contra none
    have through : ∀ node ∈ nodes 0 ([] : List Str).length value, node.Fits := by
      intro node member
      rw [not_or] at none
      exact ⟨not_lt.mp fun deep => none.1 ⟨node, member, deep⟩,
        not_le.mp fun late => none.2 ⟨node, member, late⟩⟩
    have ok := (accepted _).mpr ⟨through, rfl⟩
    rw [refused] at ok
    cases ok
  · intro stuck
    cases entered : collectJsonText value 0 [] with
    | error e => exact ⟨e, rfl⟩
    | ok out =>
      have through := ((accepted out).mp entered).1
      rcases stuck with ⟨node, member, deep⟩ | ⟨node, member, late⟩
      · exact absurd (through node member).1 (not_le.mpr deep)
      · exact absurd (through node member).2 (not_lt.mpr late)

/-- More fragments than are allowed leave a node behind too many. -/
theorem late_node {value : Json} (shallow : ¬∃ node ∈ nodes 0 0 value, 64 < node.depth)
    (more : 20000 < (fragments value).length) : ∃ node ∈ nodes 0 0 value, 20000 ≤ node.before := by
  have refused := collectJsonText_error value
  cases entered : collectJsonText value 0 [] with
  | error e => exact (refused.mp ⟨e, entered⟩).resolve_left shallow
  | ok out =>
    have same : out = fragments value := ((collectJsonText_ok value 0 [] out).mp entered).2
    have short := length_le_of_ok entered
    rw [same] at short
    exact absurd more (not_lt.mpr short)

/-- The limits refuse a document if and only if it exceeds them, except where a node comes after
exactly as many fragments as are allowed. -/
theorem collectJsonText_error_iff (value : Json) :
    ((∃ e, collectJsonText value 0 [] = .error e) ↔
      (∃ node ∈ nodes 0 0 value, 64 < node.depth) ∨ 20000 < (fragments value).length) ↔
    (∃ node ∈ nodes 0 0 value, 64 < node.depth) ∨ (fragments value).length ≠ 20000 ∨
      ∀ node ∈ nodes 0 0 value, node.before < 20000 := by
  rw [collectJsonText_error]
  by_cases deep : ∃ node ∈ nodes 0 0 value, 64 < node.depth
  · simp [deep]
  · rw [or_iff_right deep, or_iff_right deep, or_iff_right deep]
    rcases Nat.lt_trichotomy (fragments value).length 20000 with fewer | same | more
    · have early : ∀ node ∈ nodes 0 0 value, node.before < 20000 := fun node member =>
        (before_le value 0 0 node member).trans_lt (by omega)
      have none : ¬∃ node ∈ nodes 0 0 value, 20000 ≤ node.before := fun ⟨node, member, late⟩ =>
        absurd (early node member) (not_lt.mpr late)
      simp [none, fewer.le, fewer.ne]
    · have still : (∃ node ∈ nodes 0 0 value, 20000 ≤ node.before) ↔
          ¬∀ node ∈ nodes 0 0 value, node.before < 20000 := by simp
      rw [still, same]
      simp
    · simp [late_node deep more, more, more.ne']

/-- As many strings as are allowed, and a null. -/
def fullDocument : Json := .array (List.replicate 20000 (.string ['x']) ++ [.null])

theorem fragmentsOfItems_strings (n : Nat) (text : Str) (rest : List Json) :
    fragmentsOfItems (List.replicate n (.string text) ++ rest) =
      List.replicate n text ++ fragmentsOfItems rest := by
  induction n with
  | zero => rfl
  | succ n ih =>
    rw [List.replicate_succ, List.cons_append, fragmentsOfItems, ih, fragments, List.replicate_succ]
    rfl

theorem depth_of_strings {n depth before : Nat} {text : Str} :
    ∀ node ∈ nodesOfItems depth before (List.replicate n (.string text) ++ [.null]),
      node.depth = depth := by
  induction n generalizing before with
  | zero => simp [nodesOfItems, nodes.eq_def]
  | succ n ih =>
    rw [List.replicate_succ, List.cons_append, nodesOfItems, List.forall_mem_append]
    exact ⟨by simp [nodes.eq_def], ih⟩

theorem fullDocument_shallow : ¬∃ node ∈ nodes 0 0 fullDocument, 64 < node.depth := by
  rintro ⟨node, member, deep⟩
  rw [nodes.eq_def] at member
  rcases List.mem_cons.mp member with rfl | inside
  · exact absurd deep (by decide)
  · rw [depth_of_strings node inside] at deep
    exact absurd deep (by decide)

/-- The null is not entered any more. -/
theorem fullDocument_refused : ∃ e, collectJsonText fullDocument 0 [] = .error e := by
  have fits : 0 ≤ 64 ∧ ([] : List Str).length < 20000 := by decide
  have room : ([] : List Str).length + 20000 ≤ 20000 := by decide
  have strings := collectItems_strings ['x'] (by decide : 0 < 64) room [.null]
  have whole : collectJsonText fullDocument 0 [] = collectItems _ 0 [] := collectJsonText_entered fits
  have full : ¬(0 + 1 ≤ 64 ∧ ([] ++ List.replicate 20000 ['x']).length < 20000) := by
    rw [List.nil_append, List.length_replicate]
    decide
  rw [whole, strings, collectItems]
  cases entered : collectJsonText .null (0 + 1) ([] ++ List.replicate 20000 ['x']) with
  | error e => exact ⟨e, rfl⟩
  | ok out => exact absurd entered (collectJsonText_refused full out)

theorem collectJsonText_fullDocument :
    ¬((∃ e, collectJsonText fullDocument 0 [] = .error e) ↔
      (∃ node ∈ nodes 0 0 fullDocument, 64 < node.depth) ∨
        20000 < (fragments fullDocument).length) := by
  have size : (fragments fullDocument).length = 20000 := by
    rw [fullDocument, fragments, fragmentsOfItems_strings, List.length_append, List.length_replicate]
    rfl
  rw [size]
  intro same
  rcases same.mp fullDocument_refused with deep | more
  · exact fullDocument_shallow deep
  · exact absurd more (by decide)

end EalSync.Ingestion
