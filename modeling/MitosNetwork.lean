import MitosNetwork.Connection.LeaseDomains
import MitosNetwork.Connection.Ranking
import MitosNetwork.Device.Managed
import MitosNetwork.Dhcp.Acquire
import MitosNetwork.Dhcp.Dhcp6Codec
import MitosNetwork.Dhcp.LeaseTimes
import MitosNetwork.Dhcp.OptionArea
import MitosNetwork.Dhcp.OwnIa
import MitosNetwork.Firewall.Live
import MitosNetwork.Firewall.Quoting
import MitosNetwork.Firewall.RuleText
import MitosNetwork.Ip.Subnets
import MitosNetwork.Ipc.EventQueues
import MitosNetwork.Ipc.Slots
import MitosNetwork.Manager.AddressEvents
import MitosNetwork.Manager.AuditTrail
import MitosNetwork.Manager.HotspotStop
import MitosNetwork.Manager.LeaseCheck
import MitosNetwork.Manager.ProfileFiles
import MitosNetwork.Manager.Reconnect
import MitosNetwork.Manager.RequestPaths
import MitosNetwork.Manager.StateEvents
import MitosNetwork.Manager.StoredProfiles
import MitosNetwork.Manager.VpnSessions
import MitosNetwork.Persistence.LeaseFiles
import MitosNetwork.Proxy.Hosts
import MitosNetwork.Proxy.PacBranches
import MitosNetwork.Proxy.PacCache
import MitosNetwork.Proxy.PacDates
import MitosNetwork.Proxy.PacFetch
import MitosNetwork.Proxy.PacGlob
import MitosNetwork.Proxy.PacLayout
import MitosNetwork.Proxy.PacTermination
import MitosNetwork.Proxy.Script
import MitosNetwork.Routing.DefaultRoute
import MitosNetwork.Routing.Policy
import MitosNetwork.Sharing.HostapdConf
import MitosNetwork.Vpn.KeyText
import MitosNetwork.Vpn.OpenVpn
import MitosNetwork.Vpn.WireGuardConnect
import MitosNetwork.Wifi.Association
