import IoTRepublic.Foundation.DecimalText
import IoTRepublic.Foundation.CarrySum
import IoTRepublic.Foundation.Delimited
import IoTRepublic.Foundation.Framing
import IoTRepublic.Foundation.Recording
import IoTRepublic.Foundation.Runs
import IoTRepublic.Foundation.TextReplace
import IoTRepublic.Foundation.SetAndGet
import IoTRepublic.Foundation.SinglePass
import IoTRepublic.Foundation.JsonText
import IoTRepublic.Foundation.BracketText
import IoTRepublic.Package
import IoTRepublic.PackageReader
import IoTRepublic.ReaderOutcome
import IoTRepublic.CreatedPackage
import IoTRepublic.Manager
import IoTRepublic.Reassembly
import IoTRepublic.DrainProgress
import IoTRepublic.CommandCodec
import IoTRepublic.Routing
import IoTRepublic.IpRequest
import IoTRepublic.DeviceDescription
import IoTRepublic.CSharpReader
import IoTRepublic.CSharpPackage
import IoTRepublic.ReadRequest
import IoTRepublic.ManagerListeners
import IoTRepublic.LookupBounds
import IoTRepublic.ManagementBounds
import IoTRepublic.Acknowledged
import IoTRepublic.RegistryMap
import IoTRepublic.AddressOwners
import IoTRepublic.XBeeReassembly
import IoTRepublic.XBeeTable
import IoTRepublic.ReaderBounds
import IoTRepublic.Corruption
import IoTRepublic.Management
import IoTRepublic.BrokerDeletion
import IoTRepublic.UnreachableNotice
import IoTRepublic.Fragmentation
import IoTRepublic.MoreBytes
import IoTRepublic.JsmnTokens
import IoTRepublic.JsonTable
import IoTRepublic.JsmnRounds
import IoTRepublic.JsmnBrackets
import IoTRepublic.Lookup
import IoTRepublic.KeyPath
import IoTRepublic.CSharpJson
import IoTRepublic.ArrayIndex
import IoTRepublic.TokenUpdate
import IoTRepublic.TokenSeek
import IoTRepublic.GetAfterSet
import IoTRepublic.PacketTemplate
import IoTRepublic.CSharpDocument
import IoTRepublic.TemplateText
import IoTRepublic.PacketEncoding
import IoTRepublic.PacketFields
import IoTRepublic.PacketCodec
import IoTRepublic.DiscoverReply
import IoTRepublic.DiscoveryLists
import IoTRepublic.PackageOnly
import IoTRepublic.ValueBytes
import IoTRepublic.HeaderScan
import IoTRepublic.StringSearch
import IoTRepublic.Registration
import IoTRepublic.ReplySize
import IoTRepublic.DeviceReceiver
import IoTRepublic.DeviceReassembly
import IoTRepublic.Foundation.Stuffing
import IoTRepublic.XBeeApiMode
import IoTRepublic.XBeeFrames
import IoTRepublic.XBeeLine
import IoTRepublic.XBeeRequests
import IoTRepublic.XBeeUplink
import IoTRepublic.XBeeDownlink
import IoTRepublic.ManagerAnswers
import IoTRepublic.ManagerExchange
import IoTRepublic.ManagerTraffic
import IoTRepublic.ManagerDelivery
import IoTRepublic.BrokerLoop
import IoTRepublic.RequestNetwork
import IoTRepublic.DeviceRegistration
import IoTRepublic.XBeeApiCalls
import IoTRepublic.DeviceDialogue
import IoTRepublic.CSharpCommand
