import DocStore.CompiledQuery
import DocStore.Config
import DocStore.Descriptor
import DocStore.Serializer

/-!
# The store

What sessions share: the settings, the registered providers, and two caches.
Descriptors are kept per entity type and collection until another provider is
registered; a description that failed is not kept. SQL of compiled queries is
kept per discriminator and collection.
-/

set_option autoImplicit false

namespace DocStore

/-- What is fixed when a store is set up. -/
structure Settings where
  config : StoreConfig
  dialect : Dialect
  serializer : ContentSerializer

def Settings.names (settings : Settings) (collection : String) : TableNames :=
  ⟨settings.config.tablePrefix, collection⟩

structure Store where
  settings : Settings
  providers : List Provider
  /-- Descriptors by entity type and collection. -/
  described : Assoc (String × String) (List Descriptor)
  /-- SQL of compiled queries by discriminator and collection. -/
  compiled : Assoc (UInt64 × String) CompiledSql

/-- The answer to a look-up of descriptors, with the providers it had to ask. -/
structure Described where
  outcome : Except Error (List Descriptor)
  asked : List Provider
  store : Store

namespace Store

def create (settings : Settings) (providers : List Provider) : Store := ⟨settings, providers, ∅, ∅⟩

/-- Adds a provider; the next look-up of any descriptors asks it. -/
def register (store : Store) (provider : Provider) : Store :=
  { store with providers := store.providers ++ [provider], described := ∅ }

/-- Describes an entity type in a collection, whatever is in the cache. -/
def describe (store : Store) (entityType collection : String) :
    Except Error Describing × List Provider :=
  Provider.describeAll (.start entityType collection)
    (store.providers.filter fun p => p.collection = collection)

/-- The descriptors of an entity type in a collection. -/
def descriptors (store : Store) (entityType collection : String) : Described :=
  match store.described.get? (entityType, collection) with
  | some ds => ⟨.ok ds, [], store⟩
  | none =>
    match store.describe entityType collection with
    | (.error e, asked) => ⟨.error e, asked, store⟩
    | (.ok ctx, asked) =>
      ⟨.ok ctx.descriptors, asked,
        { store with described := store.described.insert (entityType, collection) ctx.descriptors }⟩

/-- The SQL of a compiled query for some arguments. -/
def compiledSql (store : Store) (q : CompiledQuery) (collection : String) (args : Arguments) :
    Except Error CompiledSql × Store :=
  match q.discriminator args with
  | .error e => (.error e, store)
  | .ok d =>
    match store.compiled.get? (d, collection) with
    | some sql => (.ok sql, store)
    | none =>
      match q.compile store.settings.dialect (store.settings.names collection) args with
      | .error e => (.error e, store)
      | .ok sql => (.ok sql, { store with compiled := store.compiled.insert (d, collection) sql })

end Store

end DocStore
