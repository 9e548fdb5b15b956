import Stottr.Library

namespace Stottr

namespace Keyed

theorem mem_insert_of_mem {α : Type} {key : α → String} {m : Keyed α key} {a c : α}
    (free : m.find? (key a) = none) (held : c ∈ m.items) : c ∈ (m.insert a).items := by
  have found := m.find?_of_mem c held
  have different : key a ≠ key c := by
    intro same
    rw [same, found] at free
    cases free
  apply mem_of_find? (m.insert a) (key c) c
  rw [find?_insert, if_neg different]
  exact found

end Keyed

namespace Library

def Within (lib grown : Library) : Prop := ∀ t ∈ lib.items, t ∈ grown.items

theorem Within.refl (lib : Library) : lib.Within lib := fun _ held => held

theorem Within.trans {lib middle grown : Library} (first : lib.Within middle)
    (last : middle.Within grown) : lib.Within grown :=
  fun t held => last t (first t held)

theorem within_register {lib grown : Library} {t : Template}
    (accepted : lib.register t = .ok grown) : lib.Within grown := by
  unfold register at accepted
  split at accepted
  · cases accepted
  · rename_i free
    cases accepted
    intro u held
    exact Keyed.mem_insert_of_mem free held

theorem within_registerAll (lib : Library) (ts : List Template) :
    lib.Within (lib.registerAll ts).library := by
  induction ts generalizing lib with
  | nil => exact .refl lib
  | cons t ts ih =>
    unfold registerAll
    split
    · rename_i grown accepted
      exact (within_register accepted).trans (ih grown)
    · exact ih lib

theorem within_load (lib : Library) (ns : Namespaces) (text : String) :
    lib.Within (lib.load ns text).library := by
  unfold load
  dsimp only
  split
  · exact .refl lib
  · exact within_registerAll lib _

-- What a library can become. The standard templates are read from a text like any other, and a
-- template that is refused leaves the library as it is.
inductive Later (lib : Library) : Library → Prop where
  | same : Later lib lib
  | register {now grown : Library} {t : Template} (earlier : Later lib now)
    (accepted : now.register t = .ok grown) : Later lib grown
  | registerAll {now : Library} (earlier : Later lib now) (ts : List Template) :
    Later lib (now.registerAll ts).library
  | load {now : Library} (earlier : Later lib now) (ns : Namespaces) (text : String) :
    Later lib (now.load ns text).library

theorem Later.within {lib grown : Library} (later : lib.Later grown) : lib.Within grown := by
  induction later with
  | same => exact .refl lib
  | register _ accepted ih => exact ih.trans (within_register accepted)
  | registerAll _ ts ih => exact ih.trans (within_registerAll _ ts)
  | load _ ns text ih => exact ih.trans (within_load _ ns text)

end Library

end Stottr
