import Mathlib.Data.List.Forall2
import Mathlib.Data.List.Induction
import TrapHooks.Hook.Registry

/-! What a registry finds once it is loaded. The tables of all loaders of one name become one table, in the loaders'
    order, so that a hook is that of the last loader with any at its number. Heads and tails go separate ways, and so
    do the tables of different names. -/

namespace TrapHooks

variable {ρ β : Type}

namespace Registry

/-- Of the loaders that make a table of this name, the last one in whose table there is anything gives this. -/
def lastOf (look : HookTable ρ → Option β) (config : Config) (name : String) (r : Registry ρ) : Option β :=
  r.loaders.reverse.findSome? fun loader => if (loader config).name = name then look (loader config) else none

/-! ### Tables of one name -/

section
variable {tables : Std.ExtTreeMap String (HookTable ρ)} {made : List (HookTable ρ)} {name : String}

theorem getElem?_collect (t : HookTable ρ) (name : String) : (collect tables t)[name]? =
    if t.name = name then some ((tables[name]?.map fun before => before.merge t).getD t) else tables[name]? := by
  rw [collect, Std.ExtTreeMap.getElem?_insert]
  by_cases same : t.name = name <;> simp [same]

theorem collect_comm {t u : HookTable ρ} (other : t.name ≠ u.name) :
    collect (collect tables t) u = collect (collect tables u) t := by
  apply Std.ExtTreeMap.ext_getElem?
  intro name
  simp only [getElem?_collect]
  by_cases here : t.name = name
  · have there : u.name ≠ name := fun same => other (here.trans same.symm)
    simp [here, there]
  · by_cases there : u.name = name <;> simp [here, there]

theorem getElem?_foldl_collect (made : List (HookTable ρ)) (t : HookTable ρ) (name : String) :
    ((made ++ [t]).foldl collect tables)[name]? =
      if t.name = name then some (((made.foldl collect tables)[name]?.map fun before => before.merge t).getD t)
      else (made.foldl collect tables)[name]? := by
  rw [List.foldl_append, List.foldl_cons, List.foldl_nil, getElem?_collect]

theorem isSome_collected : (made.foldl collect ∅)[name]?.isSome ↔ ∃ t ∈ made, t.name = name := by
  induction made using List.reverseRecOn with
  | nil => simp
  | append_singleton made t ih =>
    rw [getElem?_foldl_collect]
    by_cases same : t.name = name
    · rw [if_pos same]
      exact iff_of_true rfl ⟨t, by simp, same⟩
    · rw [if_neg same, ih]
      simp [same]

theorem name_of_collected {t : HookTable ρ} (found : (made.foldl collect ∅)[name]? = some t) : t.name = name := by
  induction made using List.reverseRecOn generalizing t with
  | nil => simp at found
  | append_singleton made u ih =>
    rw [getElem?_foldl_collect] at found
    split at found
    · rename_i same
      cases before : (made.foldl collect ∅)[name]? with
      | none =>
        rw [before] at found
        exact Option.some.inj found ▸ same
      | some first =>
        rw [before] at found
        have named : first.name = name := ih before
        exact Option.some.inj found ▸ named
    · exact ih found

/-- What is found in a table that was made of several is what the last of them has that has any. -/
theorem bind_collected {look : HookTable ρ → Option β}
    (merges : ∀ t other, look (t.merge other) = (look other).or (look t)) :
    (made.foldl collect ∅)[name]?.bind look =
      made.reverse.findSome? fun t => if t.name = name then look t else none := by
  induction made using List.reverseRecOn with
  | nil => simp
  | append_singleton made u ih =>
    rw [getElem?_foldl_collect, List.reverse_append, List.reverse_singleton, List.singleton_append,
      List.findSome?_cons, ← ih]
    by_cases same : u.name = name
    · rw [if_pos same, if_pos same, Option.bind_some]
      cases before : (made.foldl collect ∅)[name]? with
      | none =>
        rw [Option.map_none, Option.getD_none]
        cases look u <;> rfl
      | some t =>
        rw [Option.map_some, Option.getD_some, merges]
        cases look u <;> rfl
    · rw [if_neg same, if_neg same]

end

/-! ### Loading -/

variable {r other : Registry ρ} {config : Config} {name : String} {index : UInt16}

theorem isSome_table?_load :
    ((r.load config).table? name).isSome ↔ ∃ loader ∈ r.loaders, (loader config).name = name :=
  isSome_collected.trans (by simp)

theorem name_of_table?_load {t : HookTable ρ} (found : (r.load config).table? name = some t) : t.name = name :=
  name_of_collected found

theorem bind_table?_load {look : HookTable ρ → Option β}
    (merges : ∀ t other, look (t.merge other) = (look other).or (look t)) :
    ((r.load config).table? name).bind look = r.lastOf look config name := by
  refine (bind_collected merges).trans ?_
  rw [← List.map_reverse, List.findSome?_map]
  rfl

theorem bind_head?_load {hook : HeadHook ρ} :
    ((r.load config).table? name).bind (·.head? index) = some hook ↔
      ∃ routine, r.lastOf (·.heads[index]?) config name = some routine ∧ hook = ⟨name, index, routine⟩ := by
  have last : ((r.load config).table? name).bind (·.heads[index]?) = r.lastOf (·.heads[index]?) config name :=
    bind_table?_load fun t other => HookTable.heads_merge t other index
  rw [← last]
  cases found : (r.load config).table? name with
  | none => simp
  | some t =>
    obtain rfl := name_of_table?_load found
    exact HookTable.head?_eq_some_iff

theorem bind_tail?_load {hook : TailHook ρ} :
    ((r.load config).table? name).bind (·.tail? index) = some hook ↔
      ∃ routine, r.lastOf (·.tails[index]?) config name = some routine ∧ hook = ⟨name, index, routine⟩ := by
  have last : ((r.load config).table? name).bind (·.tails[index]?) = r.lastOf (·.tails[index]?) config name :=
    bind_table?_load fun t other => HookTable.tails_merge t other index
  rw [← last]
  cases found : (r.load config).table? name with
  | none => simp
  | some t =>
    obtain rfl := name_of_table?_load found
    exact HookTable.tail?_eq_some_iff

/-- The loaders of both make tables of the same names, which are the same in this part. -/
def Alike (part : HookTable ρ → β) (config : Config) (r other : Registry ρ) : Prop :=
  r.loaders.Forall₂ (fun loader loader' =>
    (loader config).name = (loader' config).name ∧ part (loader config) = part (loader' config)) other.loaders

theorem Alike.mono {γ : Type} {part : HookTable ρ → β} {part' : HookTable ρ → γ} (alike : r.Alike part config other)
    (tells : ∀ t u : HookTable ρ, t.name = u.name → part t = part u → part' t = part' u) :
    r.Alike part' config other :=
  List.Forall₂.imp (fun _ _ same => ⟨same.1, tells _ _ same.1 same.2⟩) alike

theorem Alike.lastOf_eq {look : HookTable ρ → Option β} (alike : r.Alike look config other) :
    r.lastOf look config name = other.lastOf look config name := by
  have backwards := List.rel_reverse alike
  unfold lastOf
  generalize r.loaders.reverse = first, other.loaders.reverse = last at backwards
  induction backwards with
  | nil => rfl
  | cons same others ih => rw [List.findSome?_cons, List.findSome?_cons, same.1, same.2, ih]

theorem table?_load_swap {first last : List (Config → HookTable ρ)} {a b : Config → HookTable ρ}
    (order : r.loaders = first ++ a :: b :: last) (different : (a config).name ≠ (b config).name) :
    (({ r with loaders := first ++ b :: a :: last } : Registry ρ).load config).table? name =
      (r.load config).table? name := by
  simp only [load, table?, order, List.map_append, List.map_cons, List.foldl_append, List.foldl_cons]
  rw [collect_comm different]

/-- Loading merges the tables that the loaders make; of two hooks of one name and number, the later stays.

    * By a name, a table is found exactly if a loader makes one of that name.
    * A head that is found there is the routine of the last loader whose table of that name has one among its heads at
      the number, by this name and number; there is none if no such table has one. So it is with the tails.
    * Whatever tails the loaders' tables have, the heads that are found are the same, and so it is the other way round.
    * Of what was loaded before, nothing is left, and loading again changes nothing.
    * Of two loaders next to each other whose tables have different names, either may come first. -/
theorem load_merges (r : Registry ρ) (config : Config) :
    (∀ name, ((r.load config).table? name).isSome ↔ ∃ loader ∈ r.loaders, (loader config).name = name) ∧
    (∀ name index hook, ((r.load config).table? name).bind (·.head? index) = some hook ↔
      ∃ routine, r.lastOf (·.heads[index]?) config name = some routine ∧ hook = ⟨name, index, routine⟩) ∧
    (∀ name index hook, ((r.load config).table? name).bind (·.tail? index) = some hook ↔
      ∃ routine, r.lastOf (·.tails[index]?) config name = some routine ∧ hook = ⟨name, index, routine⟩) ∧
    (∀ other : Registry ρ, r.Alike HookTable.heads config other → ∀ name index,
      ((r.load config).table? name).bind (·.head? index) = ((other.load config).table? name).bind (·.head? index)) ∧
    (∀ other : Registry ρ, r.Alike HookTable.tails config other → ∀ name index,
      ((r.load config).table? name).bind (·.tail? index) = ((other.load config).table? name).bind (·.tail? index)) ∧
    (∀ tables, ({ r with tables := tables } : Registry ρ).load config = r.load config) ∧
    (r.load config).load config = r.load config ∧
    ∀ first a b last, r.loaders = first ++ a :: b :: last → (a config).name ≠ (b config).name → ∀ name,
      (({ r with loaders := first ++ b :: a :: last } : Registry ρ).load config).table? name =
        (r.load config).table? name := by
  refine ⟨fun name => isSome_table?_load, fun name index hook => bind_head?_load,
    fun name index hook => bind_tail?_load, fun other alike name index => ?_, fun other alike name index => ?_,
    fun tables => rfl, rfl, fun first a b last order different name => table?_load_swap order different⟩
  · have same : r.lastOf (·.heads[index]?) config name = other.lastOf (·.heads[index]?) config name :=
      (alike.mono fun t u _ same => by rw [same]).lastOf_eq
    exact Option.ext fun hook => by rw [bind_head?_load, bind_head?_load, same]
  · have same : r.lastOf (·.tails[index]?) config name = other.lastOf (·.tails[index]?) config name :=
      (alike.mono fun t u _ same => by rw [same]).lastOf_eq
    exact Option.ext fun hook => by rw [bind_tail?_load, bind_tail?_load, same]

/-- A loader takes one of the engine's own hooks over and leaves the others; a tail in its table and the order in which
    a library's table is made do not matter to that. The tails of both tables are found. -/
theorem load_merges_overridden :
    let own (config : Config) : HookTable Unit :=
      ({ name := config.systemTable } : HookTable Unit).withHead 0x11D (.foreign ())
    let net (_ : Config) : HookTable Unit := ({ name := "Net.lib" } : HookTable Unit).withTail 5 ()
    let r : Registry Unit := { loaders := [HookTable.builtin, own, net] }
    let other : Registry Unit := { loaders := [HookTable.builtin, fun config => (own config).withTail 0x11D (), net] }
    let swapped : Registry Unit := { loaders := [HookTable.builtin, net, own] }
    r.loaders = [HookTable.builtin] ++ own :: net :: [] ∧ (own {}).name ≠ (net {}).name ∧
      r.Alike HookTable.heads {} other ∧
      ((other.load {}).table? "~system").bind (·.head? 0x11D) = some ⟨"~system", 0x11D, .foreign ()⟩ ∧
      ((r.load {}).table? "~system").bind (·.head? 0x11E) = some ⟨"~system", 0x11E, .noteEventTrap⟩ ∧
      ((other.load {}).table? "~system").bind (·.tail? 0x11D) = some ⟨"~system", 0x11D, ()⟩ ∧
      ((r.load {}).table? "Net.lib").bind (·.tail? 5) = some ⟨"Net.lib", 5, ()⟩ ∧
      ((r.load {}).table? "Net.lib").bind (·.head? 5) = none ∧
      ∀ name, (swapped.load {}).table? name = (r.load {}).table? name := by
  intro own net r other swapped
  have different : (own {}).name ≠ (net {}).name := by decide
  have alike : r.Alike HookTable.heads {} other := .cons ⟨rfl, rfl⟩ (.cons ⟨rfl, rfl⟩ (.cons ⟨rfl, rfl⟩ .nil))
  obtain ⟨-, heads, tails, same, -, -, -, swaps⟩ := load_merges r {}
  obtain ⟨-, -, others, -⟩ := load_merges other {}
  refine ⟨rfl, different, alike, ?_, ?_, ?_, ?_, ?_, swaps [HookTable.builtin] own net [] rfl different⟩
  · rw [← same other alike]
    exact (heads "~system" 0x11D _).mpr ⟨_, rfl, rfl⟩
  · exact (heads "~system" 0x11E _).mpr ⟨_, rfl, rfl⟩
  · exact (others "~system" 0x11D _).mpr ⟨_, rfl, rfl⟩
  · exact (tails "Net.lib" 5 _).mpr ⟨_, rfl, rfl⟩
  · refine Option.eq_none_iff_forall_ne_some.mpr fun hook found => ?_
    obtain ⟨routine, there, -⟩ := (heads "Net.lib" 5 hook).mp found
    cases there

end Registry

end TrapHooks
