-- SUMMARY: JSON values are read back from their text, in either layout.
import EntityQuery.Proofs.Json.Double
import EntityQuery.Proofs.Json.Grammar

/-!
# JSON text read back

The printer writes texts that the grammar derives, so the reader gives back the
value that a text was written from, with the members of its objects in order.
Doubles have to be finite, and they are read as what their text is read as,
which is not always the same double. Whole numbers have to fit 64 bits, and
there is a bound on how deep values nest.
-/

namespace EntityQuery.Json

/-- Values whose doubles are finite and whose whole numbers have 64 bits, nested at most as deep as the
    depth says. -/
inductive Readable : Nat → Json → Prop
  | null {depth : Nat} : Readable depth .null
  | bool {depth : Nat} (b : Bool) : Readable depth (.bool b)
  | int {depth : Nat} {n : Int} :
      -0x8000000000000000 ≤ n → n < 0x10000000000000000 → Readable depth (.int n)
  | float {depth : Nat} {x : Float} : x.isFinite = true → Readable depth (.float x)
  | string {depth : Nat} (s : Text) : Readable depth (.string s)
  | array {depth : Nat} {items : List Json} :
      (∀ v ∈ items, Readable depth v) → Readable (depth + 1) (.array items)
  | object {depth : Nat} {members : List (Text × Json)} :
      (∀ m ∈ members, Readable depth m.2) → Readable (depth + 1) (.object members)

/-! ## What a text is read as -/

mutual

/-- What the text of a value is read as. -/
def reread : Json → Json
  | float x => (floatParts x).value?.getD null
  | array items => array (rereadItems items)
  | object members => object (Keyed.ofList (rereadMembers members))
  | v => v

/-- What the items of an array are read as. -/
def rereadItems : List Json → List Json
  | [] => []
  | v :: items => reread v :: rereadItems items

/-- What the members of an object are read as, in the order in which they are written. -/
def rereadMembers : List (Text × Json) → List (Text × Json)
  | [] => []
  | (name, v) :: members => (name, reread v) :: rereadMembers members

end

theorem rereadItems_eq_map (items : List Json) : rereadItems items = items.map reread := by
  induction items with
  | nil => rfl
  | cons v items ih => rw [rereadItems, ih, List.map_cons]

theorem rereadMembers_eq_map (members : List (Text × Json)) :
    rereadMembers members = members.map fun (name, v) => (name, reread v) := by
  induction members with
  | nil => rfl
  | cons m members ih => rw [rereadMembers, ih, List.map_cons]

mutual

/-- The order of the members makes no difference to what is read. -/
theorem reread_sorted : (v : Json) → v.sorted.reread = v.reread
  | null => rfl
  | bool _ => rfl
  | int _ => rfl
  | float _ => rfl
  | string _ => rfl
  | array items => by
    rw [sorted, reread, reread, rereadItems_sortedItems items]
  | object members => by
    rw [sorted, reread, reread, rereadMembers_eq_map, Keyed.map_ofList, ← rereadMembers_eq_map,
      rereadMembers_sortedMembers members, Keyed.ofList_of_sorted (Keyed.sorted_ofList _)]

theorem rereadItems_sortedItems : (items : List Json) → rereadItems (sortedItems items) = rereadItems items
  | [] => rfl
  | v :: items => by
    rw [sortedItems, rereadItems, rereadItems, reread_sorted v, rereadItems_sortedItems items]

theorem rereadMembers_sortedMembers :
    (members : List (Text × Json)) → rereadMembers (sortedMembers members) = rereadMembers members
  | [] => rfl
  | (name, v) :: members => by
    rw [sortedMembers, rereadMembers, rereadMembers, reread_sorted v, rereadMembers_sortedMembers members]

end

mutual

theorem Readable.sorted {depth : Nat} : (v : Json) → Readable depth v → Readable depth v.sorted
  | .null, h => h
  | .bool _, h => h
  | .int _, h => h
  | .float _, h => h
  | .string _, h => h
  | .array items, h => by
    cases h with
    | array h => exact .array (Readable.sortedItems items h)
  | .object members, h => by
    cases h with
    | object h => exact .object fun m hm => Readable.sortedMembers members h m (Keyed.mem_ofList hm)

theorem Readable.sortedItems {depth : Nat} : (items : List Json) → (∀ v ∈ items, Readable depth v) →
    ∀ v ∈ Json.sortedItems items, Readable depth v
  | [], _ => by rintro v ⟨⟩
  | v :: items, h => by
    obtain ⟨hv, hrest⟩ := List.forall_mem_cons.1 h
    exact List.forall_mem_cons.2 ⟨Readable.sorted v hv, Readable.sortedItems items hrest⟩

theorem Readable.sortedMembers {depth : Nat} :
    (members : List (Text × Json)) → (∀ m ∈ members, Readable depth m.2) →
      ∀ m ∈ Json.sortedMembers members, Readable depth m.2
  | [], _ => by rintro m ⟨⟩
  | (name, v) :: members, h => by
    obtain ⟨hv, hrest⟩ := List.forall_mem_cons.1 h
    exact List.forall_mem_cons.2 ⟨Readable.sorted v hv, Readable.sortedMembers members hrest⟩

end

/-! ## What is printed -/

theorem isSpaces_break (layout : Layout) (k : Nat) : IsSpaces (layout.break k) := by
  cases layout with
  | compact => rintro c ⟨⟩
  | lines =>
    refine List.forall_mem_cons.2 ⟨rfl, fun c hc => ?_⟩
    rw [List.eq_of_mem_replicate hc]
    rfl

theorem exists_colon_eq (layout : Layout) : ∃ l, IsSpaces l ∧ layout.colon = ':' :: l := by
  cases layout with
  | compact => exact ⟨[], nofun, rfl⟩
  | lines => exact ⟨[' '], List.forall_mem_singleton.2 rfl, rfl⟩

variable {layout : Layout} {depth : Nat}

/-- An item that is printed between blanks, and the items that are printed after it. -/
theorem spellsItems_textAt {k : Nat} {v : Json} {items : List Json}
    (hv : Spells depth (v.textAt layout k) v.reread)
    (hitems : ∀ w ∈ items, Spells depth (w.textAt layout k) w.reread) {l r : Text}
    (hl : IsSpaces l) (hr : IsSpaces r) :
    SpellsItems (Spells depth) (l ++ (v.textAt layout k ++ (moreItems layout k items ++ r)))
      ((v :: items).map fun w => (w.textAt layout k, w.reread)) := by
  induction items generalizing v l with
  | nil =>
    rw [moreItems, List.nil_append]
    exact .last ⟨l, r, hl, hr, rfl⟩ hv
  | cons w items ih =>
    obtain ⟨hw, hmore⟩ := List.forall_mem_cons.1 hitems
    have hrest := ih hw hmore (isSpaces_break layout k)
    have htext : l ++ (v.textAt layout k ++ (moreItems layout k (w :: items) ++ r)) =
        (l ++ v.textAt layout k) ++ ',' :: (layout.break k ++ (w.textAt layout k ++
          (moreItems layout k items ++ r))) := by
      simp [moreItems]
    rw [htext]
    exact .more ⟨l, [], hl, nofun, by rw [List.append_nil]⟩ hv hrest

/-- A member that is printed after blanks, and the members that are printed after it. -/
theorem spellsMembers_textAt (name : Text) {k : Nat} {v : Json} {members : List (Text × Json)}
    (hv : Spells depth (v.textAt layout k) v.reread)
    (hmembers : ∀ m ∈ members, Spells depth (m.2.textAt layout k) m.2.reread) {l r : Text}
    (hl : IsSpaces l) (hr : IsSpaces r) :
    SpellsMembers (Spells depth)
      (l ++ (stringText name ++ (layout.colon ++ (v.textAt layout k ++
        (moreMembers layout k members ++ r)))))
      (((name, v) :: members).map fun m => (m.1, m.2.textAt layout k, m.2.reread)) := by
  obtain ⟨colon, hspaces, hcolon⟩ := exists_colon_eq layout
  have hstring (name : Text) : readString? (stringText name) = some (name, []) := by
    simpa using readString?_stringText name []
  have hname (l name : Text) (hl : IsSpaces l) : Padded (stringText name) (l ++ stringText name) :=
    ⟨l, [], hl, nofun, by rw [List.append_nil]⟩
  induction members generalizing name v l with
  | nil =>
    have htext : l ++ (stringText name ++ (layout.colon ++ (v.textAt layout k ++
        (moreMembers layout k [] ++ r)))) =
        (l ++ stringText name) ++ ':' :: (colon ++ (v.textAt layout k ++ r)) := by
      simp [moreMembers, hcolon]
    rw [htext]
    exact .last (hname l name hl) (hstring name) ⟨colon, r, hspaces, hr, rfl⟩ hv
  | cons m members ih =>
    obtain ⟨other, w⟩ := m
    obtain ⟨hw, hmore⟩ := List.forall_mem_cons.1 hmembers
    have hrest := ih other hw hmore (isSpaces_break layout k)
    have htext : l ++ (stringText name ++ (layout.colon ++ (v.textAt layout k ++
        (moreMembers layout k ((other, w) :: members) ++ r)))) =
        (l ++ stringText name) ++ ':' :: ((colon ++ v.textAt layout k) ++ ',' ::
          (layout.break k ++ (stringText other ++ (layout.colon ++ (w.textAt layout k ++
            (moreMembers layout k members ++ r)))))) := by
      simp [moreMembers, hcolon]
    rw [htext]
    exact .more (hname l name hl) (hstring name)
      ⟨colon, [], hspaces, nofun, by rw [List.append_nil]⟩ hv hrest

/-- The text of an array spells it if the texts of its items spell them. -/
theorem spells_textAt_array {items : List Json} (k : Nat)
    (hitems : ∀ v ∈ items, Spells depth (v.textAt layout (k + 1)) v.reread) :
    Spells (depth + 1) ((array items).textAt layout k) (array items).reread := by
  cases items with
  | nil => exact .inr (.emptyArray (t := []) nofun)
  | cons v items =>
    obtain ⟨hv, hrest⟩ := List.forall_mem_cons.1 hitems
    have hspells := spellsItems_textAt hv hrest
      (isSpaces_break layout (k + 1)) (isSpaces_break layout k)
    have hreread : (Json.array (v :: items)).reread =
        array (((v :: items).map fun w => (w.textAt layout (k + 1), w.reread)).map Prod.snd) := by
      rw [reread, rereadItems_eq_map, List.map_map]
      rfl
    have htext : (Json.array (v :: items)).textAt layout k =
        '[' :: (layout.break (k + 1) ++ (v.textAt layout (k + 1) ++
          (moreItems layout (k + 1) items ++ layout.break k))) ++ [']'] := by
      simp [textAt]
    rw [hreread, htext]
    exact .inr (.array hspells)

/-- What is printed of the members of an object, each with its text and with what that is read as. -/
def printedMembers (layout : Layout) (k : Nat) (members : List (Text × Json)) :
    List (Text × Text × Json) :=
  members.map fun m => (m.1, m.2.textAt layout k, m.2.reread)

theorem namedValues_printedMembers (layout : Layout) (k : Nat) (members : List (Text × Json)) :
    namedValues (printedMembers layout k members) = rereadMembers members := by
  rw [namedValues, printedMembers, List.map_map, rereadMembers_eq_map]
  rfl

/-- Between the braces of an object there are its members, if there are any. -/
theorem exists_textAt_object {members : List (Text × Json)} (layout : Layout) (k : Nat)
    (hmembers : ∀ m ∈ members, Spells depth (m.2.textAt layout (k + 1)) m.2.reread) :
    ∃ body, (object members).textAt layout k = '{' :: body ++ ['}'] ∧
      ((IsSpaces body ∧ printedMembers layout (k + 1) members = []) ∨
        SpellsMembers (Spells depth) body (printedMembers layout (k + 1) members)) := by
  cases members with
  | nil => exact ⟨[], rfl, .inl ⟨nofun, rfl⟩⟩
  | cons m members =>
    obtain ⟨name, v⟩ := m
    obtain ⟨hv, hrest⟩ := List.forall_mem_cons.1 hmembers
    have htext : (Json.object ((name, v) :: members)).textAt layout k =
        '{' :: (layout.break (k + 1) ++ (stringText name ++ (layout.colon ++
          (v.textAt layout (k + 1) ++ (moreMembers layout (k + 1) members ++
            layout.break k))))) ++ ['}'] := by
      simp [textAt]
    exact ⟨_, htext, .inr (spellsMembers_textAt name hv hrest
      (isSpaces_break layout (k + 1)) (isSpaces_break layout k))⟩

/-- The text of an object spells it if the texts of its members spell them. -/
theorem spells_textAt_object {members : List (Text × Json)} (k : Nat)
    (hmembers : ∀ m ∈ members, Spells depth (m.2.textAt layout (k + 1)) m.2.reread) :
    Spells (depth + 1) ((object members).textAt layout k) (object members).reread := by
  rw [reread, ← namedValues_printedMembers layout (k + 1)]
  obtain ⟨body, htext, ⟨hspaces, hnone⟩ | hspells⟩ := exists_textAt_object layout k hmembers
  · rw [htext, hnone]
    exact .inr (.emptyObject hspaces)
  · rw [htext]
    exact .inr (.object hspells)

/-- The text of a value spells it, its members in order. -/
theorem spells_textAt {v : Json} (h : Readable depth v) (layout : Layout) (k : Nat) :
    Spells depth (v.textAt layout k) v.reread := by
  induction h generalizing k with
  | null => exact .scalar .null
  | bool b =>
    cases b with
    | false => exact .scalar .false
    | true => exact .scalar .true
  | @int _ n hmin hmax =>
    have hread : readNumber? (Text.ofInt n ++ []) = some (int n, []) :=
      readNumber?_ofInt hmin hmax endsNumber_nil
    rw [List.append_nil] at hread
    exact .scalar (.number hread)
  | @float _ x hx =>
    have hread : readNumber? (floatText x ++ []) = some ((float x).reread, []) :=
      readNumber?_floatText hx endsNumber_nil
    rw [List.append_nil] at hread
    exact .scalar (.number hread)
  | string s =>
    have hread := readString?_stringText s []
    rw [List.append_nil] at hread
    exact .scalar (.string hread)
  | array _ ih => exact spells_textAt_array k fun v hv => ih v hv (k + 1)
  | object _ ih => exact spells_textAt_object k fun m hm => ih m hm (k + 1)

/-- The text of an object has its members. -/
theorem hasMembers_textIn {members : List (Text × Json)}
    (h : ∀ m ∈ members, Readable 126 m.2) (layout : Layout) :
    HasMembers ((object members).textIn layout) (printedMembers layout 1 members) := by
  obtain ⟨body, htext, hbody⟩ := exists_textAt_object layout 0
    fun m hm => spells_textAt (h m hm) layout 1
  exact ⟨body, by rw [textIn, htext]; exact .refl _, hbody⟩

/-- The text of a value that nests at most 127 deep is read as that value. -/
theorem ofText?_textIn {v : Json} (h : Readable 127 v) (layout : Layout) :
    ofText? (v.textIn layout) = some v.reread :=
  ofText?_of_spells (spells_textAt h layout 0) (.refl _)

end EntityQuery.Json
