import BinaryLayout.Text.Lines

/-!
# Views of structures

The class that views a structure, and the parts of it that are not about a single field.
-/

namespace BinaryLayout.Cpp.Fragment

def viewDeclaration (name : String) : String :=
  Text.joinLines [
    "template <class Storage>",
    s!"class Generic{name}View;",
    "",
    ""]

structure ViewClass where
  name : String
  constructorParameters : String
  parameterInitializers : String
  /-- Marks the parameters as set. -/
  flagInitializer : String
  parameterCopyInitializers : String
  enumUsings : String
  parameterOkChecks : String
  fieldOkChecks : String
  requiresCheck : String
  /-- `Bits` or `Bytes`. -/
  units : String
  sizeMethod : String
  equalsBody : String
  uncheckedEqualsBody : String
  textStreamMethods : String
  fieldMethodDeclarations : String
  parameterFields : String
  /-- Declares whether the parameters are set. -/
  flag : String
  forwardedParameters : String

def ViewClass.text (v : ViewClass) : String :=
  Text.joinLines [
    "template <class View>",
    s!"struct EmbossReservedInternalIsGeneric{v.name}View;",
    "",
    "template <class Storage>",
    s!"class Generic{v.name}View final \x7b",
    " public:",
    s!"  Generic{v.name}View() : backing_() \x7b\x7d",
    s!"  explicit Generic{v.name}View(",
    s!"      {v.constructorParameters} Storage emboss_reserved_local_bytes)",
    s!"      : backing_(emboss_reserved_local_bytes) {v.parameterInitializers}",
    s!"        {v.flagInitializer} \x7b\x7d",
    "",
    "  template <typename OtherStorage>",
    s!"  Generic{v.name}View(",
    s!"      const Generic{v.name}View<OtherStorage> &emboss_reserved_local_other)",
    "      : backing_\x7bemboss_reserved_local_other.BackingStorage()\x7d",
    s!"        {v.parameterCopyInitializers} \x7b\x7d",
    "",
    "  template <typename Arg,",
    "            typename = typename ::std::enable_if<",
    s!"                !EmbossReservedInternalIsGeneric{v.name}View<",
    "                    typename ::std::remove_cv<typename ::std::remove_reference<",
    "                        Arg>::type>::type>::value>::type>",
    s!"  explicit Generic{v.name}View(",
    s!"      {v.constructorParameters} Arg &&emboss_reserved_local_arg)",
    "      : backing_(::std::forward<Arg>(",
    s!"            emboss_reserved_local_arg)) {v.parameterInitializers}",
    s!"        {v.flagInitializer} \x7b\x7d",
    "  template <typename Arg0, typename Arg1, typename... Args>",
    s!"  explicit Generic{v.name}View(",
    s!"      {v.constructorParameters} Arg0 &&emboss_reserved_local_arg0,",
    "      Arg1 &&emboss_reserved_local_arg1, Args &&... emboss_reserved_local_args)",
    "      : backing_(::std::forward<Arg0>(emboss_reserved_local_arg0),",
    "                 ::std::forward<Arg1>(emboss_reserved_local_arg1),",
    "                 ::std::forward<Args>(",
    s!"                     emboss_reserved_local_args)...) {v.parameterInitializers}",
    s!"        {v.flagInitializer} \x7b\x7d",
    "",
    "  template <typename OtherStorage>",
    s!"  Generic{v.name}View<Storage> &operator=(",
    s!"      const Generic{v.name}View<OtherStorage> &emboss_reserved_local_other) \x7b",
    "    backing_ = emboss_reserved_local_other.BackingStorage();",
    "    return *this;",
    "  \x7d",
    "",
    s!"  {v.enumUsings}",
    "",
    "  bool Ok() const \x7b",
    "    if (!IsComplete()) return false;",
    v.parameterOkChecks,
    v.fieldOkChecks,
    v.requiresCheck,
    "    return true;",
    "  \x7d",
    "  Storage BackingStorage() const \x7b return backing_; \x7d",
    "  bool IsComplete() const \x7b",
    s!"    return backing_.Ok() && IntrinsicSizeIn{v.units}().Ok() &&",
    s!"           backing_.SizeIn{v.units}() >=",
    "               static_cast</**/ ::std::size_t>(",
    s!"                   IntrinsicSizeIn{v.units}().UncheckedRead());",
    "  \x7d",
    v.sizeMethod,
    "",
    "  template <typename OtherStorage>",
    "  bool Equals(",
    s!"      Generic{v.name}View<OtherStorage> emboss_reserved_local_other) const \x7b",
    s!"    {v.equalsBody} return true;",
    "  \x7d",
    "  template <typename OtherStorage>",
    "  bool UncheckedEquals(",
    s!"      Generic{v.name}View<OtherStorage> emboss_reserved_local_other) const \x7b",
    s!"    {v.uncheckedEqualsBody} return true;",
    "  \x7d",
    "  template <typename OtherStorage>",
    "  void UncheckedCopyFrom(",
    s!"      Generic{v.name}View<OtherStorage> emboss_reserved_local_other) const \x7b",
    "    backing_.UncheckedCopyFrom(",
    "        emboss_reserved_local_other.BackingStorage(),",
    s!"        emboss_reserved_local_other.IntrinsicSizeIn{v.units}().UncheckedRead());",
    "  \x7d",
    "",
    "  template <typename OtherStorage>",
    "  void CopyFrom(",
    s!"      Generic{v.name}View<OtherStorage> emboss_reserved_local_other) const \x7b",
    "    backing_.CopyFrom(",
    "        emboss_reserved_local_other.BackingStorage(),",
    s!"        emboss_reserved_local_other.IntrinsicSizeIn{v.units}().Read());",
    "  \x7d",
    "  template <typename OtherStorage>",
    "  bool TryToCopyFrom(",
    s!"      Generic{v.name}View<OtherStorage> emboss_reserved_local_other) const \x7b",
    "      return emboss_reserved_local_other.Ok() && backing_.TryToCopyFrom(",
    "        emboss_reserved_local_other.BackingStorage(),",
    s!"        emboss_reserved_local_other.IntrinsicSizeIn{v.units}().Read());",
    "  \x7d",
    "",
    v.textStreamMethods,
    "",
    "  static constexpr bool IsAggregate() \x7b return true; \x7d",
    "",
    v.fieldMethodDeclarations,
    "",
    " private:",
    "  Storage backing_;",
    s!"  {v.parameterFields}",
    s!"  {v.flag}",
    "",
    "  template <class OtherStorage>",
    s!"  friend class Generic{v.name}View;",
    "\x7d;",
    s!"using {v.name}View =",
    s!"    Generic{v.name}View</**/ ::emboss::support::ReadOnlyContiguousBuffer>;",
    s!"using {v.name}Writer =",
    s!"    Generic{v.name}View</**/ ::emboss::support::ReadWriteContiguousBuffer>;",
    "",
    "template <class View>",
    s!"struct EmbossReservedInternalIsGeneric{v.name}View \x7b",
    "  static constexpr const bool value = false;",
    "\x7d;",
    "",
    "template <class Storage>",
    s!"struct EmbossReservedInternalIsGeneric{v.name}View<",
    s!"    Generic{v.name}View<Storage>> \x7b",
    "  static constexpr const bool value = true;",
    "\x7d;",
    "",
    "template <typename T>",
    s!"inline Generic{v.name}View<",
    "    /**/ ::emboss::support::ContiguousBuffer<",
    "        typename ::std::remove_reference<",
    "            decltype(*::std::declval<T>()->data())>::type,",
    "        1, 0>>",
    s!"Make{v.name}View({v.constructorParameters} T &&emboss_reserved_local_arg) \x7b",
    s!"  return Generic{v.name}View<",
    "      /**/ ::emboss::support::ContiguousBuffer<",
    "          typename ::std::remove_reference<decltype(",
    "              *::std::declval<T>()->data())>::type,",
    "          1, 0>>(",
    s!"      {v.forwardedParameters} ::std::forward<T>(emboss_reserved_local_arg));",
    "\x7d",
    "",
    "template <typename T>",
    s!"inline Generic{v.name}View</**/ ::emboss::support::ContiguousBuffer<T, 1, 0>>",
    s!"Make{v.name}View({v.constructorParameters} T *emboss_reserved_local_data,",
    "                 ::std::size_t emboss_reserved_local_size) \x7b",
    s!"  return Generic{v.name}View</**/ ::emboss::support::ContiguousBuffer<T, 1, 0>>(",
    s!"      {v.forwardedParameters} emboss_reserved_local_data,",
    "      emboss_reserved_local_size);",
    "\x7d",
    "",
    "template <typename T, ::std::size_t kAlignment>",
    s!"inline Generic{v.name}View<",
    "    /**/ ::emboss::support::ContiguousBuffer<T, kAlignment, 0>>",
    s!"MakeAligned{v.name}View(",
    s!"    {v.constructorParameters} T *emboss_reserved_local_data,",
    "    ::std::size_t emboss_reserved_local_size) \x7b",
    s!"  return Generic{v.name}View<",
    "      /**/ ::emboss::support::ContiguousBuffer<T, kAlignment, 0>>(",
    s!"      {v.forwardedParameters} emboss_reserved_local_data,",
    "      emboss_reserved_local_size);",
    "\x7d",
    ""]

def textStream (decodeFields writeFields : String) : String :=
  Text.joinLines [
    "  template <class Stream>",
    "  bool UpdateFromTextStream(Stream *emboss_reserved_local_stream) const \x7b",
    "    ::std::string emboss_reserved_local_brace;",
    "    if (!::emboss::support::ReadToken(emboss_reserved_local_stream,",
    "                                      &emboss_reserved_local_brace))",
    "      return false;",
    "    if (emboss_reserved_local_brace != \"\x7b\") return false;",
    "    for (;;) \x7b",
    "      ::std::string emboss_reserved_local_name;",
    "      if (!::emboss::support::ReadToken(emboss_reserved_local_stream,",
    "                                        &emboss_reserved_local_name))",
    "        return false;",
    "      if (emboss_reserved_local_name == \",\")",
    "        if (!::emboss::support::ReadToken(emboss_reserved_local_stream,",
    "                                          &emboss_reserved_local_name))",
    "          return false;",
    "      if (emboss_reserved_local_name == \"\x7d\") return true;",
    "      ::std::string emboss_reserved_local_colon;",
    "      if (!::emboss::support::ReadToken(emboss_reserved_local_stream,",
    "                                        &emboss_reserved_local_colon))",
    "        return false;",
    "      if (emboss_reserved_local_colon != \":\") return false;",
    decodeFields,
    "      return false;",
    "    \x7d",
    "  \x7d",
    "",
    "  template <class Stream>",
    "  void WriteToTextStream(",
    "      Stream *emboss_reserved_local_stream,",
    "      ::emboss::TextOutputOptions emboss_reserved_local_options) const \x7b",
    "    ::emboss::TextOutputOptions emboss_reserved_local_field_options =",
    "        emboss_reserved_local_options.PlusOneIndent();",
    "    if (emboss_reserved_local_options.multiline()) \x7b",
    "      emboss_reserved_local_stream->Write(\"\x7b\\n\");",
    "    \x7d else \x7b",
    "      emboss_reserved_local_stream->Write(\"\x7b\");",
    "    \x7d",
    "    bool emboss_reserved_local_wrote_field = false;",
    writeFields,
    "    (void)emboss_reserved_local_wrote_field;",
    "    if (emboss_reserved_local_options.multiline()) \x7b",
    "      emboss_reserved_local_stream->Write(",
    "          emboss_reserved_local_options.current_indent());",
    "      emboss_reserved_local_stream->Write(\"\x7d\");",
    "    \x7d else \x7b",
    "      emboss_reserved_local_stream->Write(\" \x7d\");",
    "    \x7d",
    "  \x7d",
    "",
    ""]

def decodeField (name : String) : String :=
  Text.joinLines [
    s!"      if (emboss_reserved_local_name == \"{name}\") \x7b",
    s!"        if (!{name}().UpdateFromTextStream(",
    "                emboss_reserved_local_stream)) \x7b",
    "          return false;",
    "        \x7d",
    "        continue;",
    "      \x7d",
    ""]

def writeField (name : String) : String :=
  Text.joinLines [
    s!"    if (has_{name}().ValueOr(false)) \x7b",
    "      if (!emboss_reserved_local_field_options.allow_partial_output() ||",
    s!"          {name}().IsAggregate() || {name}().Ok()) \x7b",
    "        if (emboss_reserved_local_field_options.multiline()) \x7b",
    "          emboss_reserved_local_stream->Write(",
    "              emboss_reserved_local_field_options.current_indent());",
    "        \x7d else \x7b",
    "          if (emboss_reserved_local_wrote_field) \x7b",
    "            emboss_reserved_local_stream->Write(\",\");",
    "          \x7d",
    "          emboss_reserved_local_stream->Write(\" \");",
    "        \x7d",
    s!"        emboss_reserved_local_stream->Write(\"{name}: \");",
    s!"        {name}().WriteToTextStream(emboss_reserved_local_stream,",
    "                                           emboss_reserved_local_field_options);",
    "        emboss_reserved_local_wrote_field = true;",
    "        if (emboss_reserved_local_field_options.multiline()) \x7b",
    "          emboss_reserved_local_stream->Write(\"\\n\");",
    "        \x7d",
    "      \x7d else if (emboss_reserved_local_field_options.allow_partial_output() &&",
    "                 emboss_reserved_local_field_options.comments() &&",
    s!"                 !{name}().IsAggregate() && !{name}().Ok()) \x7b",
    "        if (emboss_reserved_local_field_options.multiline()) \x7b",
    "          emboss_reserved_local_stream->Write(",
    "              emboss_reserved_local_field_options.current_indent());",
    "        \x7d",
    s!"        emboss_reserved_local_stream->Write(\"# {name}: UNREADABLE\\n\");",
    "      \x7d",
    "    \x7d",
    ""]

/-- How a field that cannot be set is written as text: in a comment. -/
def writeReadOnlyField (name : String) : String :=
  Text.joinLines [
    s!"    if (has_{name}().ValueOr(false) &&",
    "        emboss_reserved_local_field_options.comments()) \x7b",
    "      if (!emboss_reserved_local_field_options.allow_partial_output() ||",
    s!"          {name}().IsAggregate() || {name}().Ok()) \x7b",
    "        emboss_reserved_local_stream->Write(",
    "            emboss_reserved_local_field_options.current_indent());",
    s!"        emboss_reserved_local_stream->Write(\"# {name}: \");",
    s!"        {name}().WriteToTextStream(emboss_reserved_local_stream,",
    "                                           emboss_reserved_local_field_options);",
    "        emboss_reserved_local_stream->Write(\"\\n\");",
    "      \x7d else \x7b",
    "        if (emboss_reserved_local_field_options.multiline()) \x7b",
    "          emboss_reserved_local_stream->Write(",
    "              emboss_reserved_local_field_options.current_indent());",
    "        \x7d",
    s!"        emboss_reserved_local_stream->Write(\"# {name}: UNREADABLE\\n\");",
    "      \x7d",
    "    \x7d",
    ""]

def constantSize (units : String) : String :=
  Text.joinLines [
    s!"  static constexpr ::std::size_t SizeIn{units}() \x7b",
    s!"    return static_cast</**/ ::std::size_t>(IntrinsicSizeIn{units}().Read());",
    "  \x7d",
    "  static constexpr bool SizeIsKnown() \x7b",
    s!"    return IntrinsicSizeIn{units}().Ok();",
    "  \x7d",
    ""]

def runtimeSize (units : String) : String :=
  Text.joinLines [
    s!"  ::std::size_t SizeIn{units}() const \x7b",
    s!"    return static_cast</**/ ::std::size_t>(IntrinsicSizeIn{units}().Read());",
    "  \x7d",
    s!"  bool SizeIsKnown() const \x7b return IntrinsicSizeIn{units}().Ok(); \x7d",
    "",
    ""]

def okTest (field : String) : String :=
  Text.joinLines [
    s!"    if (!has_{field}.Known()) return false;",
    s!"    if (has_{field}.ValueOrDefault() && !{field}.Ok()) return false;",
    "",
    ""]

def equalsTest (field : String) : String :=
  Text.joinLines [
    "",
    s!"    if (!has_{field}.Known()) return false;",
    s!"    if (!emboss_reserved_local_other.has_{field}.Known()) return false;",
    "",
    s!"    if (emboss_reserved_local_other.has_{field}.ValueOrDefault() &&",
    s!"        !has_{field}.ValueOrDefault())",
    "      return false;",
    s!"    if (has_{field}.ValueOrDefault() &&",
    s!"        !emboss_reserved_local_other.has_{field}.ValueOrDefault())",
    "      return false;",
    "",
    s!"    if (emboss_reserved_local_other.has_{field}.ValueOrDefault() &&",
    s!"        has_{field}.ValueOrDefault() &&",
    s!"        !{field}.Equals(emboss_reserved_local_other.{field}))",
    "      return false;",
    "",
    ""]

def uncheckedEqualsTest (field : String) : String :=
  Text.joinLines [
    "",
    s!"    if (emboss_reserved_local_other.has_{field}.ValueOr(false) &&",
    s!"        !has_{field}.ValueOr(false))",
    "      return false;",
    s!"    if (has_{field}.ValueOr(false) &&",
    s!"        !emboss_reserved_local_other.has_{field}.ValueOr(false))",
    "      return false;",
    "",
    s!"    if (emboss_reserved_local_other.has_{field}.ValueOr(false) &&",
    s!"        has_{field}.ValueOr(false) &&",
    s!"        !{field}.UncheckedEquals(emboss_reserved_local_other.{field}))",
    "      return false;",
    "",
    ""]

/-- The statement that makes an enumeration known inside a class. -/
def enumUsing (name component : String) : String :=
  s!"  using {name} = {component};"

def parameterMethods (name type : String) : String :=
  Text.joinLines [
    " private:",
    s!"  constexpr ::emboss::support::MaybeConstantView</**/ {type}>",
    s!"  {name}() const \x7b",
    "    return parameters_initialized_",
    s!"               ? ::emboss::support::MaybeConstantView</**/ {type}>(",
    s!"                     {name}_)",
    s!"               : ::emboss::support::MaybeConstantView</**/ {type}>();",
    "  \x7d",
    s!"  constexpr ::emboss::support::Maybe<bool> has_{name}() const \x7b",
    "    return ::emboss::support::Maybe<bool>(parameters_initialized_);",
    "  \x7d",
    "",
    ""]

end BinaryLayout.Cpp.Fragment
